import Mathlib.Data.List.Basic
import ScopedRename.Outline.Header
import ScopedRename.Proofs.Token.Layout

/-!
Where the scans over code end up: a list of parameters splits into segments inside its parentheses, a parameter's name
stands in its segment, headers are read forward, and the type in front of a name has its simple name among its
identifiers.
-/

namespace ScopedRename.Code

variable (code : Code)

theorem lt_size_of_any {position : Nat} {test : Lexeme → Bool} (here : (code.word? position).any test = true) :
    position < code.size := by
  by_contra past
  rw [word?, Layout.word?_of_le (Nat.le_of_not_lt past)] at here
  cases here

theorem isIdentifier_lt_size {position : Nat} (identifier : code.isIdentifier position = true) :
    position < code.size := code.lt_size_of_any identifier

theorem isPunctuation_lt_size {position : Nat} {mark : String} (here : code.isPunctuation position mark = true) :
    position < code.size := code.lt_size_of_any here

theorem isKeyword_lt_size {position : Nat} {text : String} (here : code.isKeyword position text = true) :
    position < code.size := code.lt_size_of_any here

theorem isPunctuation_of_ne {position : Nat} {text mark : String} (here : code.isPunctuation position text = true)
    (different : text ≠ mark) : code.isPunctuation position mark = false := by
  unfold isPunctuation Lexeme.isPunctuation at here ⊢
  cases found : code.word? position with
  | none => rfl
  | some word =>
      rw [found, Option.any_some, Bool.and_eq_true, beq_iff_eq, beq_iff_eq] at here
      rw [Option.any_some, here.2, beq_eq_false_iff_ne.mpr different, Bool.and_false]

theorem mem_identifiersIn {start stop position : Nat} :
    position ∈ code.identifiersIn start stop ↔
      (start ≤ position ∧ position < stop) ∧ code.isIdentifier position = true := by
  unfold identifiersIn
  rw [List.mem_filter, List.mem_range'_1]
  constructor
  · rintro ⟨⟨low, high⟩, identifier⟩
    exact ⟨⟨low, by omega⟩, identifier⟩
  · rintro ⟨⟨low, high⟩, identifier⟩
    exact ⟨⟨low, by omega⟩, identifier⟩

theorem identifiersIn_ascending (start stop : Nat) : (code.identifiersIn start stop).Pairwise (· < ·) :=
  List.Pairwise.filter _ List.pairwise_lt_range'

/-! ### Types in front of names -/

theorem mem_qualifiedName_self (position : Nat) : position ∈ code.qualifiedName position := by
  fun_induction code.qualifiedName position <;> simp

def spellsTypeKeyword (position : Nat) : Bool :=
  (code.word? position).any fun word => word.kind == .keyword && isTypeKeyword word.text

theorem isIdentifier_of_spellsTypeKeyword {position : Nat} (keyword : code.spellsTypeKeyword position = true) :
    code.isIdentifier position = false := by
  unfold spellsTypeKeyword at keyword
  unfold isIdentifier
  cases found : code.word? position with
  | none => rfl
  | some word =>
      rw [found, Option.any_some, Bool.and_eq_true, beq_iff_eq] at keyword
      rw [Option.any_some, Lexeme.isIdentifier, keyword.1]
      rfl

/-- The type arguments that end at a position, and where the name in front of them stands. -/
def typeNameEnd? (position : Nat) : Option (List Nat × Nat) :=
  if code.isPunctuation position ">" then
    (code.genericOpen? position).map fun start => (code.identifiersIn (start + 1) position, start - 1)
  else
    some ([], position)

theorem typeEndingAt_eq (isArray : Bool) (position : Nat) :
    code.typeEndingAt isArray position =
      (code.typeNameEnd? position).bind fun ending =>
        if code.spellsTypeKeyword ending.2 then
          some ⟨ending.2, ending.1, none, isArray⟩
        else if code.isIdentifier ending.2 then
          some ⟨code.qualifiedStart ending.2, code.qualifiedName ending.2 ++ ending.1, some ending.2, isArray⟩
        else none := by
  unfold typeEndingAt typeNameEnd?
  by_cases generic : code.isPunctuation position ">" = true
  · simp only [generic, if_true]
    cases code.genericOpen? position with
    | none => rfl
    | some start => rfl
  · simp only [generic]
    rfl

def writtenEnd? (position : Nat) : Option Nat :=
  if code.isPunctuation position "..." then (if position == 0 then none else some (position - 1)) else some position

theorem typeBefore?_succ (position : Nat) :
    code.typeBefore? (position + 1) =
      (code.writtenEnd? position).bind fun written =>
        (code.beforeDimensions written).bind fun base =>
          code.typeEndingAt (code.isPunctuation position "..." || base != written) base := by
  unfold typeBefore? writtenEnd?
  by_cases variadic : code.isPunctuation position "..." = true
  · simp only [variadic, if_true]
    rfl
  · simp only [variadic]
    rfl

/-- The simple name of a type is one of its identifiers; a type without one is a keyword. -/
theorem typeEndingAt_simple {isArray : Bool} {position : Nat} {run : TypeRun}
    (found : code.typeEndingAt isArray position = some run) :
    (∀ name, run.simple = some name → name ∈ run.identifiers ∧ code.isIdentifier name = true) ∧
      (run.simple = none → code.spellsTypeKeyword run.start = true) := by
  rw [typeEndingAt_eq, Option.bind_eq_some_iff] at found
  obtain ⟨⟨arguments, name⟩, _, finished⟩ := found
  dsimp only at finished
  split at finished
  · rename_i keyword
    cases finished
    constructor
    · intro simple impossible
      cases impossible
    · intro _
      exact keyword
  · split at finished
    · rename_i identifier
      cases finished
      constructor
      · intro simple same
        cases same
        exact ⟨List.mem_append_left _ (code.mem_qualifiedName_self name), identifier⟩
      · intro impossible
        cases impossible
    · cases finished

theorem typeBefore?_simple {position : Nat} {run : TypeRun} (found : code.typeBefore? position = some run) :
    (∀ name, run.simple = some name → name ∈ run.identifiers ∧ code.isIdentifier name = true) ∧
      (run.simple = none → code.spellsTypeKeyword run.start = true) := by
  cases position with
  | zero => cases found
  | succ position =>
      rw [typeBefore?_succ, Option.bind_eq_some_iff] at found
      obtain ⟨written, _, rest⟩ := found
      rw [Option.bind_eq_some_iff] at rest
      obtain ⟨base, _, ending⟩ := rest
      exact code.typeEndingAt_simple ending

/-- No type ends in a punctuation other than a closing bracket, a closing angle bracket or an ellipsis. -/
theorem typeBefore?_of_followsPunctuation {position : Nat} {text : String}
    (follows : code.followsPunctuation position text = true) (noEllipsis : text ≠ "...") (noBracket : text ≠ "]")
    (noAngle : text ≠ ">") : code.typeBefore? position = none := by
  cases position with
  | zero => rfl
  | succ position =>
      have here : code.isPunctuation position text = true := follows
      have base : code.beforeDimensions position = some position := by
        unfold beforeDimensions
        split
        · rfl
        · rw [code.isPunctuation_of_ne here noBracket]
          rfl
        · rw [code.isPunctuation_of_ne here noBracket]
          rfl
      have ending : code.typeNameEnd? position = some ([], position) := by
        unfold typeNameEnd?
        rw [code.isPunctuation_of_ne here noAngle]
        rfl
      have written : code.writtenEnd? position = some position := by
        unfold writtenEnd?
        rw [code.isPunctuation_of_ne here noEllipsis]
        rfl
      rw [typeBefore?_succ, written, Option.bind_some, base, Option.bind_some, typeEndingAt_eq, ending,
        Option.bind_some]
      unfold isPunctuation Lexeme.isPunctuation at here
      cases found : code.word? position with
      | none =>
          rw [found] at here
          cases here
      | some word =>
          rw [found, Option.any_some, Bool.and_eq_true, beq_iff_eq] at here
          simp [spellsTypeKeyword, isIdentifier, Lexeme.isIdentifier, found, here.1]

/-! ### Words a type is made of -/

def isTypePart (position : Nat) : Bool := code.isTypeArgumentPart position || code.isPunctuation position "..."

theorem isTypePart_of_isPunctuation {position : Nat} {mark : String} (here : code.isPunctuation position mark = true) :
    code.isTypePart position = [",", ".", "?", "&", "[", "]", "<", ">", "..."].contains mark := by
  unfold isPunctuation Lexeme.isPunctuation at here
  unfold isTypePart isTypeArgumentPart isPunctuation Lexeme.isPunctuation
  cases found : code.word? position with
  | none =>
      rw [found] at here
      cases here
  | some word =>
      obtain ⟨kind, text⟩ := word
      rw [found, Option.any_some, Bool.and_eq_true, beq_iff_eq, beq_iff_eq] at here
      obtain ⟨rfl, rfl⟩ := here
      simp [Bool.or_assoc, Bool.beq_eq_decide_eq]

theorem isPunctuation_of_isIdentifier {position : Nat} (identifier : code.isIdentifier position = true)
    (mark : String) :
    code.isPunctuation position mark = false := by
  unfold isIdentifier Lexeme.isIdentifier at identifier
  unfold isPunctuation Lexeme.isPunctuation
  cases found : code.word? position with
  | none => rfl
  | some word =>
      rw [found, Option.any_some, beq_iff_eq] at identifier
      rw [Option.any_some, identifier]
      rfl

theorem isPunctuation_of_isKeyword {position : Nat} {text : String} (keyword : code.isKeyword position text = true)
    (mark : String) : code.isPunctuation position mark = false := by
  unfold isKeyword Lexeme.isKeyword at keyword
  unfold isPunctuation Lexeme.isPunctuation
  cases found : code.word? position with
  | none => rfl
  | some word =>
      rw [found, Option.any_some, Bool.and_eq_true, beq_iff_eq] at keyword
      rw [Option.any_some, keyword.1]
      rfl

theorem isTypePart_of_isKeyword {position : Nat} {text : String} (keyword : code.isKeyword position text = true) :
    code.isTypePart position = (text == "extends" || text == "super" || isTypeKeyword text) := by
  have noEllipsis := code.isPunctuation_of_isKeyword keyword "..."
  unfold isKeyword Lexeme.isKeyword at keyword
  unfold isTypePart isTypeArgumentPart
  cases found : code.word? position with
  | none =>
      rw [found] at keyword
      cases keyword
  | some word =>
      rw [found, Option.any_some, Bool.and_eq_true, beq_iff_eq, beq_iff_eq] at keyword
      dsimp only
      rw [noEllipsis, Bool.or_false, keyword.1, keyword.2]

theorem isTypePart_of_isIdentifier {position : Nat} (identifier : code.isIdentifier position = true) :
    code.isTypePart position = true := by
  unfold isIdentifier Lexeme.isIdentifier at identifier
  unfold isTypePart isTypeArgumentPart
  cases found : code.word? position with
  | none =>
      rw [found] at identifier
      cases identifier
  | some word =>
      rw [found, Option.any_some, beq_iff_eq] at identifier
      dsimp only
      rw [identifier, Bool.true_or]

theorem isTypePart_of_spellsTypeKeyword {position : Nat} (keyword : code.spellsTypeKeyword position = true) :
    code.isTypePart position = true := by
  unfold spellsTypeKeyword at keyword
  unfold isTypePart isTypeArgumentPart
  cases found : code.word? position with
  | none =>
      rw [found] at keyword
      cases keyword
  | some word =>
      rw [found, Option.any_some, Bool.and_eq_true, beq_iff_eq] at keyword
      dsimp only
      rw [keyword.1, keyword.2, Bool.or_true, Bool.true_or]

/-- Only type arguments stand between angle brackets. -/
theorem angleOpenFrom_parts {depth position start : Nat} (found : code.angleOpenFrom depth position = some start) :
    ∀ word, start ≤ word → word ≤ position → code.isTypePart word = true := by
  induction position generalizing depth with
  | zero =>
      intro word low high
      unfold angleOpenFrom at found
      split at found
      · rename_i opens
        have zero : word = 0 := by omega
        rw [zero, code.isTypePart_of_isPunctuation (Bool.and_eq_true_iff.mp opens).1]
        rfl
      · cases found
  | succ position ih =>
      intro word low high
      have inside {deeper : Nat} (further : code.angleOpenFrom deeper position = some start)
          (part : code.isTypeArgumentPart (position + 1) = true) : code.isTypePart word = true := by
        rcases Nat.lt_or_eq_of_le high with before | here
        · exact ih further word low (by omega)
        · rw [here, isTypePart, part, Bool.true_or]
      unfold angleOpenFrom at found
      split at found
      · cases found
      · rename_i part
        rw [Bool.not_eq_true, Bool.not_eq_false'] at part
        split at found
        · exact inside found part
        · split at found
          · split at found
            · cases found
              have here : word = position + 1 := by omega
              rw [here, isTypePart, part, Bool.true_or]
            · exact inside found part
          · exact inside found part

/-- Only square brackets are stepped over in front of a name. -/
theorem beforeDimensions_parts {position base : Nat} (found : code.beforeDimensions position = some base) :
    ∀ word, base < word → word ≤ position → code.isTypePart word = true := by
  fun_induction code.beforeDimensions position with
  | case1 =>
      intro word low high
      omega
  | case2 => cases found
  | case3 =>
      intro word low high
      cases found
      omega
  | case4 position brackets ih =>
      intro word low high
      obtain ⟨closes, opens⟩ := Bool.and_eq_true_iff.mp brackets
      by_cases last : word = position + 2
      · rw [last, code.isTypePart_of_isPunctuation closes]
        rfl
      · by_cases former : word = position + 1
        · rw [former, code.isTypePart_of_isPunctuation opens]
          rfl
        · exact ih found word low (by omega)
  | case5 =>
      intro word low high
      cases found
      omega

/-- Only identifiers and dots stand in a qualified name. -/
theorem qualifiedStart_parts {name : Nat} (identifier : code.isIdentifier name = true) :
    ∀ word, code.qualifiedStart name ≤ word → word ≤ name → code.isTypePart word = true := by
  fun_induction code.qualifiedStart name with
  | case1 name qualified ih =>
      intro word low high
      obtain ⟨dot, outer⟩ := Bool.and_eq_true_iff.mp qualified
      by_cases last : word = name + 2
      · rw [last]
        exact code.isTypePart_of_isIdentifier identifier
      · by_cases former : word = name + 1
        · rw [former, code.isTypePart_of_isPunctuation dot]
          rfl
        · exact ih outer word low (by omega)
  | case2 name =>
      intro word low high
      have here : word = name + 2 := by omega
      rw [here]
      exact code.isTypePart_of_isIdentifier identifier
  | case3 name =>
      intro word low high
      have here : word = name := by omega
      rw [here]
      exact code.isTypePart_of_isIdentifier identifier

theorem typeNameEnd?_parts {position : Nat} {arguments : List Nat} {name : Nat}
    (found : code.typeNameEnd? position = some (arguments, name)) :
    ∀ word, name < word → word ≤ position → code.isTypePart word = true := by
  unfold typeNameEnd? at found
  split at found
  · obtain ⟨start, opened, same⟩ := Option.map_eq_some_iff.mp found
    cases same
    unfold genericOpen? at opened
    split at opened
    · rename_i before angle
      split at opened
      · cases opened
        intro word low high
        exact code.angleOpenFrom_parts angle word (by omega) high
      · cases opened
    · cases opened
  · cases found
    intro word low high
    omega

theorem typeBefore?_parts {position : Nat} {run : TypeRun} (found : code.typeBefore? position = some run) :
    ∀ word, run.start ≤ word → word < position → code.isTypePart word = true := by
  cases position with
  | zero => cases found
  | succ position =>
      intro word low high
      rw [typeBefore?_succ, Option.bind_eq_some_iff] at found
      obtain ⟨written, ends, rest⟩ := found
      rw [Option.bind_eq_some_iff] at rest
      obtain ⟨base, dimensions, ending⟩ := rest
      rw [typeEndingAt_eq, Option.bind_eq_some_iff] at ending
      obtain ⟨⟨arguments, name⟩, named, finished⟩ := ending
      dsimp only at finished
      by_cases inName : word ≤ name
      · split at finished
        · rename_i keyword
          cases finished
          have here : word = name := Nat.le_antisymm inName low
          rw [here]
          exact code.isTypePart_of_spellsTypeKeyword keyword
        · split at finished
          · rename_i identifier
            cases finished
            exact code.qualifiedStart_parts identifier word low inName
          · cases finished
      · by_cases inArguments : word ≤ base
        · exact code.typeNameEnd?_parts named word (by omega) inArguments
        · by_cases inDimensions : word ≤ written
          · exact code.beforeDimensions_parts dimensions word (by omega) inDimensions
          · unfold writtenEnd? at ends
            split at ends
            · rename_i ellipsis
              split at ends
              · cases ends
              · cases ends
                have here : word = position := by omega
                rw [here, code.isTypePart_of_isPunctuation ellipsis]
                rfl
            · cases ends
              omega

/-- Nothing but parts of types stands from the type parameters of a method to its name. -/
theorem methodTypeParameters?_parts {position : Nat} {run : TypeRun} (before : code.typeBefore? position = some run)
    {start stop : Nat} (found : code.methodTypeParameters? run = some (start, stop)) :
    ∀ word, start ≤ word → word < position → code.isTypePart word = true := by
  intro word low high
  by_cases inType : run.start ≤ word
  · exact code.typeBefore?_parts before word inType high
  · unfold methodTypeParameters? at found
    split at found
    · cases found
    · rename_i close begins
      split at found
      · obtain ⟨opened, angle, same⟩ := Option.map_eq_some_iff.mp found
        cases same
        exact code.angleOpenFrom_parts angle word low (by omega)
      · cases found

/-! ### Where types and their parameters start -/

theorem angleOpenFrom_opens {depth position start : Nat} (found : code.angleOpenFrom depth position = some start) :
    start ≤ position ∧ code.isPunctuation start "<" = true := by
  induction position generalizing depth with
  | zero =>
      unfold angleOpenFrom at found
      split at found
      · rename_i opens
        cases found
        exact ⟨Nat.le_refl _, (Bool.and_eq_true_iff.mp opens).1⟩
      · cases found
  | succ position ih =>
      have further {deeper : Nat} (rest : code.angleOpenFrom deeper position = some start) :
          start ≤ position + 1 ∧ code.isPunctuation start "<" = true :=
        ⟨Nat.le_succ_of_le (ih rest).1, (ih rest).2⟩
      unfold angleOpenFrom at found
      split at found
      · cases found
      · split at found
        · exact further found
        · split at found
          · rename_i opens
            split at found
            · cases found
              exact ⟨Nat.le_refl _, opens⟩
            · exact further found
          · exact further found

theorem beforeDimensions_le {position base : Nat} (found : code.beforeDimensions position = some base) :
    base ≤ position := by
  fun_induction code.beforeDimensions position with
  | case1 => cases found; exact Nat.le_refl _
  | case2 => cases found
  | case3 => cases found; exact Nat.le_refl _
  | case4 position _ ih => exact Nat.le_trans (ih found) (Nat.le_add_right position 2)
  | case5 => cases found; exact Nat.le_refl _

theorem qualifiedStart_le (name : Nat) : code.qualifiedStart name ≤ name := by
  fun_induction code.qualifiedStart name with
  | case1 name _ ih => exact Nat.le_trans ih (Nat.le_add_right name 2)
  | case2 => exact Nat.le_refl _
  | case3 => exact Nat.le_refl _

theorem typeNameEnd?_le {position : Nat} {arguments : List Nat} {name : Nat}
    (found : code.typeNameEnd? position = some (arguments, name)) : name ≤ position := by
  unfold typeNameEnd? at found
  split at found
  · obtain ⟨start, opened, same⟩ := Option.map_eq_some_iff.mp found
    cases same
    unfold genericOpen? at opened
    split at opened
    · rename_i before angle
      split at opened
      · cases opened
        have bound := (code.angleOpenFrom_opens angle).1
        omega
      · cases opened
    · cases opened
  · cases found
    exact Nat.le_refl _

theorem writtenEnd?_le {position written : Nat} (found : code.writtenEnd? position = some written) :
    written ≤ position := by
  unfold writtenEnd? at found
  split at found
  · split at found
    · cases found
    · cases found
      exact Nat.sub_le _ _
  · cases found
    exact Nat.le_refl _

theorem typeBefore?_start_lt {position : Nat} {run : TypeRun} (found : code.typeBefore? position = some run) :
    run.start < position := by
  cases position with
  | zero => cases found
  | succ position =>
      rw [typeBefore?_succ, Option.bind_eq_some_iff] at found
      obtain ⟨written, ends, rest⟩ := found
      rw [Option.bind_eq_some_iff] at rest
      obtain ⟨base, dimensions, ending⟩ := rest
      rw [typeEndingAt_eq, Option.bind_eq_some_iff] at ending
      obtain ⟨⟨arguments, name⟩, named, finished⟩ := ending
      have writtenBound := code.writtenEnd?_le ends
      have baseBound := code.beforeDimensions_le dimensions
      have nameBound := code.typeNameEnd?_le named
      dsimp only at finished
      split at finished
      · cases finished
        dsimp only
        omega
      · split at finished
        · cases finished
          have startBound := code.qualifiedStart_le name
          dsimp only
          omega
        · cases finished

/-- The type parameters of a method stand between angle brackets in front of its return type. -/
theorem methodTypeParameters?_bounds {position : Nat} {run : TypeRun} (before : code.typeBefore? position = some run)
    {start stop : Nat} (found : code.methodTypeParameters? run = some (start, stop)) :
    start < stop ∧ stop < position ∧ code.isPunctuation start "<" = true := by
  have runBound := code.typeBefore?_start_lt before
  unfold methodTypeParameters? at found
  split at found
  · cases found
  · rename_i close begins
    split at found
    · rename_i closes
      obtain ⟨opened, angle, same⟩ := Option.map_eq_some_iff.mp found
      cases same
      obtain ⟨bound, opens⟩ := code.angleOpenFrom_opens angle
      have different : start ≠ stop := by
        rintro rfl
        rw [code.isPunctuation_of_ne opens (by decide)] at closes
        cases closes
      exact ⟨by omega, by omega, opens⟩
    · cases found

/-- They end directly in front of it. -/
theorem methodTypeParameters?_stop {run : TypeRun} {start stop : Nat}
    (found : code.methodTypeParameters? run = some (start, stop)) : run.start = stop + 1 := by
  unfold methodTypeParameters? at found
  split at found
  · cases found
  · rename_i close begins
    split at found
    · obtain ⟨opened, _, same⟩ := Option.map_eq_some_iff.mp found
      cases same
      exact begins
    · cases found

theorem mem_qualifiedName {name word : Nat} (identifier : code.isIdentifier name = true)
    (member : word ∈ code.qualifiedName name) :
    code.isIdentifier word = true ∧ code.qualifiedStart name ≤ word ∧ word ≤ name := by
  fun_induction code.qualifiedName name with
  | case1 name qualified ih =>
      rw [qualifiedStart, if_pos qualified]
      rcases List.mem_append.mp member with former | here
      · obtain ⟨found, low, high⟩ := ih (Bool.and_eq_true_iff.mp qualified).2 former
        exact ⟨found, low, by omega⟩
      · rw [List.mem_singleton.mp here]
        have low := code.qualifiedStart_le name
        exact ⟨identifier, by omega, Nat.le_refl _⟩
  | case2 name plain =>
      rw [qualifiedStart, if_neg plain, List.mem_singleton.mp member]
      exact ⟨identifier, Nat.le_refl _, Nat.le_refl _⟩
  | case3 name =>
      rw [List.mem_singleton.mp member]
      exact ⟨identifier, code.qualifiedStart_le name, Nat.le_refl _⟩

theorem mem_typeNameEnd? {position word : Nat} {arguments : List Nat} {name : Nat}
    (found : code.typeNameEnd? position = some (arguments, name)) (member : word ∈ arguments) :
    code.isIdentifier word = true ∧ name ≤ word ∧ word ≤ position := by
  unfold typeNameEnd? at found
  split at found
  · obtain ⟨start, _, same⟩ := Option.map_eq_some_iff.mp found
    cases same
    obtain ⟨bounds, identifier⟩ := code.mem_identifiersIn.mp member
    exact ⟨identifier, by omega, by omega⟩
  · cases found
    cases member

theorem mem_typeEndingAt {isArray : Bool} {position word : Nat} {run : TypeRun}
    (found : code.typeEndingAt isArray position = some run) (member : word ∈ run.identifiers) :
    code.isIdentifier word = true ∧ run.start ≤ word ∧ word ≤ position := by
  rw [typeEndingAt_eq, Option.bind_eq_some_iff] at found
  obtain ⟨⟨arguments, name⟩, named, finished⟩ := found
  have nameBound := code.typeNameEnd?_le named
  dsimp only at finished
  split at finished
  · cases finished
    exact code.mem_typeNameEnd? named member
  · split at finished
    · rename_i identifier
      cases finished
      have startBound := code.qualifiedStart_le name
      rcases List.mem_append.mp member with qualified | argument
      · obtain ⟨here, low, high⟩ := code.mem_qualifiedName identifier qualified
        exact ⟨here, low, by omega⟩
      · obtain ⟨here, low, high⟩ := code.mem_typeNameEnd? named argument
        exact ⟨here, Nat.le_trans startBound low, high⟩
    · cases finished

/-- The identifiers of a type stand from its start up to the name behind it. -/
theorem typeBefore?_identifiers {position word : Nat} {run : TypeRun} (found : code.typeBefore? position = some run)
    (member : word ∈ run.identifiers) : code.isIdentifier word = true ∧ run.start ≤ word ∧ word < position := by
  cases position with
  | zero => cases found
  | succ position =>
      rw [typeBefore?_succ, Option.bind_eq_some_iff] at found
      obtain ⟨written, ends, rest⟩ := found
      rw [Option.bind_eq_some_iff] at rest
      obtain ⟨base, dimensions, ending⟩ := rest
      have writtenBound := code.writtenEnd?_le ends
      have baseBound := code.beforeDimensions_le dimensions
      obtain ⟨identifier, low, high⟩ := code.mem_typeEndingAt ending member
      exact ⟨identifier, low, by omega⟩

theorem methodTypeParameters?_marks {position : Nat} {run : TypeRun} (before : code.typeBefore? position = some run)
    {start stop : Nat} (found : code.methodTypeParameters? run = some (start, stop)) :
    ∀ word, start ≤ word → word < position → code.isPunctuation word "(" = false := by
  intro word low high
  have part := code.methodTypeParameters?_parts before found word low high
  rw [Bool.eq_false_iff]
  intro parenthesis
  rw [code.isTypePart_of_isPunctuation parenthesis] at part
  exact absurd part (by decide)

/-! ### Segments of parameter lists -/

theorem segmentsFrom_bounds {close : Nat} {generics : Bool} {start angle position : Nat} {segment : Nat × Nat}
    (ordered : start ≤ position) (member : segment ∈ code.segmentsFrom close generics start angle position) :
    start ≤ segment.1 ∧ segment.1 ≤ segment.2 ∧ segment.2 < close := by
  fun_induction code.segmentsFrom close generics start angle position with
  | case1 start angle position inside next later _ ih => exact ih (by omega) member
  | case2 start angle position inside _ opens ih => exact ih (by omega) member
  | case3 start angle position inside _ _ closes ih => exact ih (by omega) member
  | case4 start angle position inside _ _ _ separates ih =>
      rcases List.mem_append.mp member with here | further
      · split at here
        · rw [List.mem_singleton] at here
          subst segment
          dsimp only
          omega
        · cases here
      · have bounds := ih (Nat.le_refl _) further
        omega
  | case5 start angle position inside _ _ _ _ ih => exact ih (by omega) member
  | case6 start angle position outside nonempty =>
      rw [List.mem_singleton] at member
      subst segment
      dsimp only
      omega
  | case7 => cases member

theorem segments_bounds {opener close : Nat} {later : opener < close} {generics : Bool} {segment : Nat × Nat}
    (closed : code.close? opener = some ⟨close, later⟩) (member : segment ∈ code.segments opener generics) :
    opener < segment.1 ∧ segment.1 ≤ segment.2 ∧ segment.2 < close := by
  unfold segments at member
  rw [closed] at member
  exact code.segmentsFrom_bounds (Nat.le_refl _) member

/-- The segments of a list stand one behind the other. -/
theorem segmentsFrom_ascending {close : Nat} {generics : Bool} {start angle position : Nat}
    (ordered : start ≤ position) :
    (code.segmentsFrom close generics start angle position).Pairwise fun left right => left.2 < right.1 := by
  fun_induction code.segmentsFrom close generics start angle position with
  | case1 start angle position inside next later _ ih => exact ih (by omega)
  | case2 start angle position inside _ opens ih => exact ih (by omega)
  | case3 start angle position inside _ _ closes ih => exact ih (by omega)
  | case4 start angle position inside _ _ _ separates ih =>
      refine List.pairwise_append.mpr ⟨?_, ih (Nat.le_refl _), ?_⟩
      · split
        · exact List.pairwise_singleton _ _
        · exact List.Pairwise.nil
      · intro left here right further
        have bounds := code.segmentsFrom_bounds (Nat.le_refl _) further
        split at here
        · rw [List.mem_singleton.mp here]
          dsimp only
          omega
        · cases here
  | case5 start angle position inside _ _ _ _ ih => exact ih (by omega)
  | case6 => exact List.pairwise_singleton _ _
  | case7 => exact List.Pairwise.nil

theorem segments_ascending (opener : Nat) (generics : Bool) :
    (code.segments opener generics).Pairwise fun left right => left.2 < right.1 := by
  unfold segments
  split
  · exact code.segmentsFrom_ascending (Nat.le_refl _)
  · exact List.Pairwise.nil

/-- A comma or the closer follows a segment. -/
theorem segmentsFrom_followed {close : Nat} {generics : Bool} {start angle position : Nat} {segment : Nat × Nat}
    (member : segment ∈ code.segmentsFrom close generics start angle position) :
    segment.2 + 1 = close ∨ code.isPunctuation (segment.2 + 1) "," = true := by
  fun_induction code.segmentsFrom close generics start angle position with
  | case1 start angle position inside next later _ ih => exact ih member
  | case2 start angle position inside _ opens ih => exact ih member
  | case3 start angle position inside _ _ closes ih => exact ih member
  | case4 start angle position inside _ _ _ separates ih =>
      rcases List.mem_append.mp member with here | further
      · split at here
        · rw [List.mem_singleton] at here
          subst segment
          dsimp only
          rw [Nat.sub_add_cancel (by omega)]
          exact Or.inr (Bool.and_eq_true_iff.mp separates).2
        · cases here
      · exact ih further
  | case5 start angle position inside _ _ _ _ ih => exact ih member
  | case6 start angle position outside nonempty =>
      rw [List.mem_singleton] at member
      subst segment
      exact Or.inl (Nat.sub_add_cancel (by omega))
  | case7 => cases member

theorem segments_followed {opener close : Nat} {later : opener < close} {generics : Bool} {segment : Nat × Nat}
    (closed : code.close? opener = some ⟨close, later⟩) (member : segment ∈ code.segments opener generics) :
    segment.2 + 1 = close ∨ code.isPunctuation (segment.2 + 1) "," = true := by
  unfold segments at member
  rw [closed] at member
  exact code.segmentsFrom_followed member

theorem beforeBrackets_followed (first position : Nat) :
    code.beforeBrackets first position = position ∨
      code.isPunctuation (code.beforeBrackets first position + 1) "]" = true ∨
      code.isPunctuation (code.beforeBrackets first position + 1) "[" = true := by
  fun_induction code.beforeBrackets first position with
  | case1 => exact Or.inl rfl
  | case2 position bracket ih =>
      rcases ih with here | further
      · rw [here]
        exact Or.inr (Bool.or_eq_true_iff.mp (Bool.and_eq_true_iff.mp bracket).2)
      · exact Or.inr further
  | case3 => exact Or.inl rfl

theorem beforeBrackets_bounds (first position : Nat) (ordered : first ≤ position) :
    first ≤ code.beforeBrackets first position ∧ code.beforeBrackets first position ≤ position := by
  fun_induction code.beforeBrackets first position with
  | case1 => omega
  | case2 position bracket ih =>
      have inside : first < position + 1 := by
        rw [Bool.and_eq_true, decide_eq_true_eq] at bracket
        exact bracket.1
      have bounds := ih (by omega)
      omega
  | case3 => omega

theorem parameterName?_bounds {first last name : Nat} (ordered : first ≤ last)
    (found : code.parameterName? first last = some name) :
    code.isIdentifier name = true ∧ first ≤ name ∧ name ≤ last := by
  unfold parameterName? at found
  dsimp only at found
  split at found
  · rename_i identifier
    cases found
    exact ⟨identifier, code.beforeBrackets_bounds first last ordered⟩
  · cases found

theorem mem_dottedName {position word : Nat} (member : word ∈ (code.dottedName position).1) : position ≤ word := by
  fun_induction code.dottedName position with
  | case1 position inside identifier dotted further ih =>
      rcases List.mem_cons.mp member with here | later
      · exact Nat.le_of_eq here.symm
      · exact Nat.le_trans (Nat.le_add_right position 2) (ih later)
  | case2 => exact Nat.le_of_eq (List.mem_singleton.mp member).symm
  | case3 => cases member
  | case4 => cases member

/-- A dotted name does not pass an identifier that no dot follows. -/
theorem dottedName_le {position name word : Nat} (identifier : code.isIdentifier name = true)
    (undotted : code.isPunctuation (name + 1) "." = false) (ordered : position ≤ name)
    (member : word ∈ (code.dottedName position).1) : word ≤ name := by
  fun_induction code.dottedName position with
  | case1 position inside _ dotted further ih =>
      have notHere : position ≠ name := by
        rintro rfl
        rw [dotted] at undotted
        cases undotted
      have notNext : position + 1 ≠ name := by
        rintro rfl
        rw [code.isPunctuation_of_isIdentifier identifier] at dotted
        cases dotted
      rcases List.mem_cons.mp member with here | later
      · rw [here]
        exact ordered
      · exact ih (by omega) later
  | case2 =>
      rw [List.mem_singleton.mp member]
      exact ordered
  | case3 => cases member
  | case4 => cases member

theorem le_parameterTypeWords {name position word : Nat} (member : word ∈ code.parameterTypeWords name position) :
    position ≤ word := by
  fun_induction code.parameterTypeWords name position with
  | case1 position inside marked within next ih =>
      rcases List.mem_append.mp member with dotted | later
      · exact Nat.le_of_succ_le (code.mem_dottedName dotted)
      · have bound := ih later
        omega
  | case2 position inside _ next later _ ih => exact Nat.le_trans (Nat.le_of_lt later) (ih member)
  | case3 position inside _ _ ih =>
      rcases List.mem_cons.mp member with here | later
      · exact Nat.le_of_eq here.symm
      · exact Nat.le_of_succ_le (ih later)
  | case4 => cases member

theorem parameterTypeWords_le {name position word : Nat} (identifier : code.isIdentifier name = true)
    (undotted : code.isPunctuation (name + 1) "." = false) (member : word ∈ code.parameterTypeWords name position) :
    word ≤ name := by
  fun_induction code.parameterTypeWords name position with
  | case1 position inside marked within next ih =>
      rcases List.mem_append.mp member with dotted | later
      · exact code.dottedName_le identifier undotted inside dotted
      · exact ih later
  | case2 position inside _ next later _ ih => exact ih member
  | case3 position inside _ _ ih =>
      rcases List.mem_cons.mp member with here | later
      · omega
      · exact ih later
  | case4 => cases member

/-! ### Headers of types and methods -/

theorem le_typeNameWords {position word : Nat} (member : word ∈ code.typeNameWords position) : position ≤ word := by
  fun_induction code.typeNameWords position with
  | case1 position inside qualified ih =>
      rcases List.mem_cons.mp member with here | later
      · exact Nat.le_of_eq here.symm
      · exact Nat.le_trans (Nat.le_add_right position 2) (ih later)
  | case2 position inside plain arguments _ | case3 position inside plain arguments _ =>
      have placed : word = position ∨ word ∈ arguments := by
        first
          | exact List.mem_cons.mp member
          | exact .inr member
      rcases placed with here | argument
      · exact Nat.le_of_eq here.symm
      · unfold arguments at argument
        split at argument
        · split at argument
          · have bounds := (code.mem_identifiersIn.mp argument).1
            omega
          · cases argument
        · cases argument
  | case4 => cases member

/-- The words of a `throws` clause stand behind the parameters. -/
theorem mem_methodHeader {throwing : Bool} {position word : Nat}
    (member : word ∈ (code.methodHeader throwing position).1) : position ≤ word := by
  have start {throwing : Bool} {position : Nat}
      (inside : word ∈ if throwing then [position] else []) : position ≤ word := by
    split at inside
    · exact Nat.le_of_eq (List.mem_singleton.mp inside).symm
    · cases inside
  fun_induction code.methodHeader throwing position with
  | case1 => cases member
  | case2 throwing position inside _ here further next later _ rest ih =>
      rcases List.mem_append.mp member with first | behind
      · exact start first
      · exact Nat.le_trans (Nat.le_of_lt later) (ih behind)
  | case3 throwing position inside _ here further _ rest ih =>
      rcases List.mem_append.mp member with first | behind
      · exact start first
      · exact Nat.le_of_succ_le (ih behind)
  | case4 => cases member

theorem mem_typeParametersFrom {close depth position parameter : Nat}
    (member : parameter ∈ code.typeParametersFrom close depth position) :
    code.isIdentifier parameter = true ∧ position ≤ parameter ∧ parameter ≤ close := by
  fun_induction code.typeParametersFrom close depth position with
  | case1 depth position inside opens ih =>
      have bounds := ih member
      exact ⟨bounds.1, by omega, bounds.2.2⟩
  | case2 depth position inside _ closes ih =>
      have bounds := ih member
      exact ⟨bounds.1, by omega, bounds.2.2⟩
  | case3 depth position inside _ _ starts ih =>
      rcases List.mem_cons.mp member with here | later
      · subst parameter
        have startsHere := (Bool.and_eq_true_iff.mp starts).2
        exact ⟨(Bool.and_eq_true_iff.mp startsHere).1, Nat.le_refl _, inside⟩
      · have bounds := ih later
        exact ⟨bounds.1, by omega, bounds.2.2⟩
  | case4 depth position inside _ _ _ ih =>
      have bounds := ih member
      exact ⟨bounds.1, by omega, bounds.2.2⟩
  | case5 => cases member

theorem typeParametersFrom_ascending (close depth position : Nat) :
    (code.typeParametersFrom close depth position).Pairwise (· < ·) := by
  fun_induction code.typeParametersFrom close depth position with
  | case1 _ _ _ _ ih => exact ih
  | case2 _ _ _ _ _ ih => exact ih
  | case3 depth position _ _ _ _ ih =>
      refine List.pairwise_cons.mpr ⟨?_, ih⟩
      intro parameter member
      exact Nat.lt_of_succ_le (code.mem_typeParametersFrom member).2.1
  | case4 _ _ _ _ _ _ ih => exact ih
  | case5 => exact List.Pairwise.nil

theorem mem_supertypesFrom {stop : Nat} {inClause : Bool} {angle position : Nat} {name : String}
    (member : name ∈ code.supertypesFrom stop inClause angle position) :
    ∃ word, word ∈ code.identifiersIn position stop ∧ name = code.text word := by
  have widen {low high : Nat} (le : low ≤ high) {target : String}
      (found : ∃ word, word ∈ code.identifiersIn high stop ∧ target = code.text word) :
      ∃ word, word ∈ code.identifiersIn low stop ∧ target = code.text word := by
    obtain ⟨word, inside, spelled⟩ := found
    have bounds := code.mem_identifiersIn.mp inside
    exact ⟨word, code.mem_identifiersIn.mpr ⟨⟨by omega, bounds.1.2⟩, bounds.2⟩, spelled⟩
  fun_induction code.supertypesFrom stop inClause angle position with
  | case1 _ _ _ _ _ ih => exact widen (by omega) (ih member)
  | case2 _ _ _ _ _ _ ih => exact widen (by omega) (ih member)
  | case3 _ _ _ _ _ _ _ ih => exact widen (by omega) (ih member)
  | case4 inClause angle position inside _ _ _ lists ih =>
      rcases List.mem_cons.mp member with here | later
      · simp only [Bool.and_eq_true] at lists
        exact ⟨position, code.mem_identifiersIn.mpr ⟨⟨Nat.le_refl _, inside⟩, lists.1.1.1⟩, here⟩
      · exact widen (by omega) (ih later)
  | case5 _ _ _ _ _ _ _ _ ih => exact widen (by omega) (ih member)
  | case6 => cases member

theorem le_headerStop (position : Nat) : position ≤ code.headerStop position := by
  fun_induction code.headerStop position with
  | case1 => exact Nat.le_refl _
  | case2 position inside _ ih => omega
  | case3 => exact Nat.le_refl _

theorem le_methodHeader (throwing : Bool) (position : Nat) : position ≤ (code.methodHeader throwing position).2 := by
  fun_induction code.methodHeader throwing position with
  | case1 => exact Nat.le_refl _
  | case2 throwing position inside _ _ _ next later _ further ih =>
      exact Nat.le_trans (Nat.le_of_lt later) ih
  | case3 throwing position inside _ _ _ _ further ih =>
      exact Nat.le_trans (Nat.le_succ position) ih
  | case4 => exact Nat.le_refl _

theorem angleCloseFrom_bounds {depth position close : Nat} (found : code.angleCloseFrom depth position = some close) :
    position ≤ close ∧ ∀ word, position ≤ word → word ≤ close → code.isTypeArgumentPart word = true := by
  have extend {position close : Nat} (part : ¬(!code.isTypeArgumentPart position) = true)
      (further : position + 1 ≤ close ∧
        ∀ word, position + 1 ≤ word → word ≤ close → code.isTypeArgumentPart word = true) :
      position ≤ close ∧ ∀ word, position ≤ word → word ≤ close → code.isTypeArgumentPart word = true := by
    refine ⟨by omega, ?_⟩
    intro word low high
    rcases Nat.eq_or_lt_of_le low with here | later
    · rw [← here]
      simpa using part
    · exact further.2 word later high
  fun_induction code.angleCloseFrom depth position with
  | case1 => cases found
  | case2 depth position _ part _ ih => exact extend part (ih found)
  | case3 depth position _ part _ _ _ =>
      cases found
      refine ⟨Nat.le_refl _, ?_⟩
      intro word low high
      rw [Nat.le_antisymm high low]
      simpa using part
  | case4 depth position _ part _ _ _ ih => exact extend part (ih found)
  | case5 depth position _ part _ _ ih => exact extend part (ih found)
  | case6 => cases found

end ScopedRename.Code
