import Mathlib.Data.List.Basic
import ScopedRename.Reference.Binding

/-!
Two runs of the binder side by side. Of a name it goes through, a receiver asks only which declaration the name
certainly denotes. Two runs that denote the same word by word therefore see the same receivers, up to a respelling of
type names, and to compare two runs it is enough to compare how they bind one word behind receivers that compare.
-/

namespace ScopedRename

namespace Resolution

def denoted? : Resolution → Option DeclarationId
  | .resolved declaration => some declaration
  | .ambiguous _ | .external _ | .unresolved => none

theorem denoted?_of_not_isBound {resolution : Resolution} (free : resolution.isBound = false) :
    resolution.denoted? = none := by
  cases resolution with
  | resolved declaration => cases free
  | ambiguous candidates => rfl
  | external declaration => rfl
  | unresolved => rfl

end Resolution

def Receiver.respell (spell : String → String) : Receiver → Receiver
  | .localType scope => .localType scope
  | .named type => .named (spell type)
  | .inherited types => .inherited (types.map spell)
  | .unknown => .unknown

theorem Receiver.respell_id (receiver : Receiver) : receiver.respell id = receiver := by
  cases receiver with
  | localType scope => rfl
  | named type => rfl
  | inherited types => exact congrArg Receiver.inherited (List.map_id types)
  | unknown => rfl

namespace Code

/-- The words and the declarations that receivers are read off are the same on both sides, but for the spelling of
types. -/
structure SideBySide (left right : Code) (before after : Outline) (spell : String → String) : Prop where
  keyword : right.isKeyword = left.isKeyword
  punctuation : right.isPunctuation = left.isPunctuation
  partner : right.partner? = left.partner?
  reference : right.isReference after = left.isReference before
  type : ∀ position, after.enclosingType? (after.home position) = before.enclosingType? (before.home position)
  supertypes : ∀ scope, after.supertypesOf scope = (before.supertypesOf scope).map spell
  ofName : ∀ id, after.receiverOfName id = (before.receiverOfName id).respell spell
  ofCall : ∀ id, after.receiverOfCall id = (before.receiverOfCall id).respell spell

namespace SideBySide

variable {left right : Code} {before after : Outline} {spell : String → String}

/-- What is read off a name depends only on the declaration that is certainly denoted. -/
private theorem receiver_of_denoted {found again : Resolution} {plain respelled : DeclarationId → Receiver}
    (related : ∀ id, respelled id = (plain id).respell spell) :
    again.denoted? = found.denoted? →
      (match again with | .resolved id => respelled id | _ => Receiver.unknown) =
        Receiver.respell spell (match found with | .resolved id => plain id | _ => Receiver.unknown) := by
  have read (resolution : Resolution) (receiver : DeclarationId → Receiver) :
      (match resolution with | .resolved id => receiver id | _ => Receiver.unknown) =
        resolution.denoted?.elim .unknown receiver := by
    cases resolution <;> rfl
  intro same
  rw [read, read, same]
  cases found.denoted? with
  | none => rfl
  | some id => exact related id

/-- `this` behind a receiver is the type the receiver names, whatever it is called. -/
private theorem outer_respell (receiver : Receiver) :
    (match receiver.respell spell with | .localType outer => Receiver.localType outer | _ => .unknown) =
      Receiver.respell spell (match receiver with | .localType outer => .localType outer | _ => .unknown) := by
  cases receiver <;> rfl

variable (both : SideBySide left right before after spell) (first second : ProjectIndex)

include both

theorem followsPunctuation : right.followsPunctuation = left.followsPunctuation := by
  funext position mark
  cases position with
  | zero => rfl
  | succ earlier => exact congrFun (congrFun both.punctuation earlier) mark

/-- The receiver that ends at a word, when the runs compare up to there. -/
theorem receiverAt_step {position : Nat}
    (here : left.isReference before position = true →
      (right.bindingAt after second position).2.denoted? = (left.bindingAt before first position).2.denoted?)
    (earlier : ∀ word, word < position →
      (left.isReference before word = true →
        (right.bindingAt after second word).2.denoted? = (left.bindingAt before first word).2.denoted?) ∧
      right.receiverAt after second word = (left.receiverAt before first word).respell spell) :
    right.receiverAt after second position = (left.receiverAt before first position).respell spell := by
  conv_lhs => rw [receiverAt]
  conv_rhs => rw [receiverAt]
  rw [both.keyword, both.punctuation, both.partner, both.followsPunctuation, both.reference, both.type]
  split
  · split
    · rw [(earlier (position - 2) (by omega)).2]
      exact outer_respell _
    · cases before.enclosingType? (before.home position) with
      | none => rfl
      | some scope => rfl
  · split
    · cases before.enclosingType? (before.home position) with
      | none => rfl
      | some scope => exact congrArg Receiver.inherited (both.supertypes scope)
    · split
      · rename_i used
        exact receiver_of_denoted both.ofName (here used)
      · -- a call: its callee stands before the bracket that opens the arguments
        split
        · split
          · rename_i callee _
            split
            · rename_i ordered
              split
              · rename_i used
                exact receiver_of_denoted both.ofCall ((earlier callee ordered).1 used)
              · rfl
            · rfl
          · rfl
        · rfl

/-- Receivers stand before their members, so whatever relates the bindings of one word behind receivers that compare
relates the bindings of all words. -/
theorem run (Related : Lookup × Resolution → Lookup × Resolution → Prop)
    (denoted : ∀ found again, Related found again → again.2.denoted? = found.2.denoted?)
    (step : ∀ position, left.isReference before position = true →
      (∀ word, word < position →
        right.receiverAt after second word = (left.receiverAt before first word).respell spell) →
      Related (left.bindingAt before first position) (right.bindingAt after second position))
    (position : Nat) :
    (left.isReference before position = true →
      Related (left.bindingAt before first position) (right.bindingAt after second position)) ∧
    right.receiverAt after second position = (left.receiverAt before first position).respell spell := by
  induction position using Nat.strongRecOn with
  | ind position earlier =>
      have here (used : left.isReference before position = true) :=
        step position used fun word ordered => (earlier word ordered).2
      refine ⟨here, both.receiverAt_step first second (fun used => denoted _ _ (here used)) ?_⟩
      intro word ordered
      exact ⟨fun used => denoted _ _ ((earlier word ordered).1 used), (earlier word ordered).2⟩

end SideBySide

end Code

end ScopedRename
