import ScopedRename.Proofs.Binding.Respelling
import ScopedRename.Proofs.Outline.Texts
import ScopedRename.Proofs.Plan.FreshName

/-!
Planning on respelled code. Main statement: analysis and planning depend on the spelling of identifiers only through
which of them are equal.
-/

namespace ScopedRename

def Refusal.respell {place : Type} (spell : String → String) : Refusal place → Refusal place
  | .invalidName name fault => .invalidName (spell name) fault
  | .notFound locator => .notFound locator
  | .ambiguousReference places => .ambiguousReference places
  | .ambiguousDeclaration locator places => .ambiguousDeclaration locator places
  | .nameConflict name conflict => .nameConflict (spell name) conflict

def Renaming.respell (spell : String → String) (accepted : Renaming) : Renaming :=
  { accepted with oldName := spell accepted.oldName, newName := spell accepted.newName }

namespace ProjectIndex

theorem empty_member? (types : List String) (name : String) : empty.member? types name = none :=
  List.findSome?_eq_none_iff.mpr fun _ _ => rfl

end ProjectIndex

namespace BoundOutline

def ofCode (code : Code) (index : ProjectIndex) : BoundOutline :=
  ⟨Outline.ofCode code, code.references (Outline.ofCode code) index⟩

noncomputable def respell (bound : BoundOutline) (spell : String → String) : BoundOutline :=
  ⟨bound.outline.respell spell, bound.references.map (Reference.respell spell)⟩

variable (bound : BoundOutline) (spell : String → String)

instance ofCode_registered {code : Code} {index : ProjectIndex} : (ofCode code index).outline.Registered :=
  Outline.ofCode_registered code

instance ofCode_ordered {code : Code} {index : ProjectIndex} [code.layout.Ordered] :
    (ofCode code index).outline.layout.Ordered :=
  Outline.ofCode_ordered

theorem respell_referencesTo (id : DeclarationId) :
    (bound.respell spell).referencesTo id = (bound.referencesTo id).map (Reference.respell spell) := by
  unfold referencesTo respell
  rw [Array.toList_map, List.filter_map]
  rfl

theorem respell_ambiguousWith (id : DeclarationId) :
    (bound.respell spell).ambiguousWith id = (bound.ambiguousWith id).map (Reference.respell spell) := by
  unfold ambiguousWith respell
  rw [Array.toList_map, List.filter_map]
  rfl

@[simp]
theorem respell_positionOf : (bound.respell spell).positionOf = bound.positionOf := by
  funext id
  unfold positionOf respell
  rw [Outline.respell_declaration?]
  cases bound.outline.declaration? id with
  | none => rfl
  | some declaration => rfl

theorem respell_clashes (target : DeclarationId) (renamed : Declaration) :
    (bound.respell spell).clashes target (renamed.respell spell) = bound.clashes target renamed := by
  funext other
  unfold clashes respell
  rw [Outline.respell_declaration?]
  cases bound.outline.declaration? other with
  | none => rfl
  | some declaration => rfl

theorem respell_isOutside (renamed : Declaration) :
    (bound.respell spell).isOutside (renamed.respell spell) = bound.isOutside renamed := by
  funext id
  unfold isOutside respell
  rw [Outline.respell_declaration?, Outline.respell_isWithin]
  cases bound.outline.declaration? id with
  | none => rfl
  | some declaration => rfl

theorem respell_sites (target : DeclarationId) (renamed : Declaration) :
    (bound.respell spell).sites target (renamed.respell spell) = bound.sites target renamed := by
  unfold sites
  rw [respell_referencesTo, List.map_map]
  rfl

theorem respell_renameSites (target : DeclarationId) (renamed : Declaration) :
    (bound.respell spell).renameSites target (renamed.respell spell) = bound.renameSites target renamed := by
  unfold renameSites
  rw [respell_referencesTo, List.map_map]
  rfl

section Kept

variable {bound spell} {names : Set String} (kept : bound.outline.KeptApart spell names)
  (used : ∀ reference ∈ bound.references.toList, reference.name ∈ names) {newName : String} (known : newName ∈ names)

include kept known

theorem respell_meetsAt [bound.outline.Registered] [bound.outline.layout.Ordered] (target : DeclarationId)
    (renamed : Declaration) :
    (bound.respell spell).meetsAt target (renamed.respell spell) (spell newName) =
      bound.meetsAt target renamed newName := by
  have within : (bound.respell spell).outline.isWithin = bound.outline.isWithin := Outline.respell_isWithin _ _
  have kind : (renamed.respell spell).kind = renamed.kind := rfl
  have scope : (renamed.respell spell).scope = renamed.scope := rfl
  have lookup (site : ScopeId) (space : NameSpace) :
      (bound.respell spell).outline.lookup site (spell newName) space none =
        bound.outline.lookup site newName space none := kept.lookup_none known site space
  have declared (type : ScopeId) (space : NameSpace) :
      (bound.respell spell).outline.declaredIn type (spell newName) space =
        bound.outline.declaredIn type newName space := kept.declaredIn known type space
  funext site
  cases site with
  | lexical site =>
      simp only [meetsAt, lookup, within, kind, scope, respell_clashes, respell_positionOf]
  | member type => simp only [meetsAt, declared, kind, respell_clashes, respell_positionOf]
  | foreign => rfl
  | path => rfl

include used

theorem respell_captured? [bound.outline.layout.Ordered] (renamed : Declaration) {reference : Reference}
    (member : reference ∈ bound.references.toList) :
    (bound.respell spell).captured? (renamed.respell spell) (spell newName) (reference.respell spell) =
      bound.captured? renamed newName reference := by
  have within : (bound.respell spell).outline.isWithin = bound.outline.isWithin := Outline.respell_isWithin _ _
  have named : (spell reference.name != spell newName) = (reference.name != newName) := by
    apply Bool.eq_iff_iff.mpr
    rw [bne_iff_ne, bne_iff_ne]
    exact not_congr ⟨kept.apart (used reference member) known, congrArg spell⟩
  have before : decide ((bound.respell spell).outline.startOf (reference.respell spell).position <
      (bound.respell spell).outline.startOf (renamed.respell spell).position) =
      decide (bound.outline.startOf reference.position < bound.outline.startOf renamed.position) :=
    decide_eq_decide.mpr (bound.outline.respell_startOf_lt spell)
  unfold captured?
  rw [respell_isOutside, respell_positionOf, within, before]
  show (if spell reference.name != spell newName || !isCompatible renamed.kind.space reference then none else _) = _
  rw [named]
  rfl

theorem respell_verdict [bound.outline.Registered] [bound.outline.layout.Ordered] (strict : Bool)
    (target : DeclarationId) (renamed : Declaration) :
    (bound.respell spell).verdict strict target (renamed.respell spell) (spell newName) =
      bound.verdict strict target renamed newName := by
  have captured : (bound.respell spell).references.toList.findSome?
      ((bound.respell spell).captured? (renamed.respell spell) (spell newName)) =
      bound.references.toList.findSome? (bound.captured? renamed newName) := by
    rw [← List.head?_filterMap, ← List.head?_filterMap]
    unfold respell
    rw [Array.toList_map, List.filterMap_map]
    refine congrArg List.head? (List.filterMap_congr ?_)
    intro reference member
    exact respell_captured? kept used known renamed member
  have ids : (bound.respell spell).outline.declarationIds = bound.outline.declarationIds :=
    Outline.respell_declarationIds _ _
  unfold verdict
  rw [respell_sites, respell_meetsAt kept known, captured, ids, respell_positionOf]

/-- A rename in a respelled outline to the respelled name is planned, or refused, in the same places. The outcome names
only the old name and the new one, so any respelling that agrees on the names tells it. -/
theorem respell_planFor [bound.outline.Registered] [bound.outline.layout.Ordered] {told : String → String}
    (agree : Set.EqOn told spell names) (strict : Bool)
    (target : DeclarationId) (valid : Name.fault? newName = none) (validAgain : Name.fault? (spell newName) = none) :
    (bound.respell spell).planFor strict target (spell newName) =
      ((bound.planFor strict target newName).mapError (Refusal.respell told)).map (Renaming.respell told) := by
  have declaration : (bound.respell spell).outline.declaration? target =
      (bound.outline.declaration? target).map (Declaration.respell spell) := Outline.respell_declaration? _ _ _
  have ambiguous : ((bound.respell spell).ambiguousWith target).map (·.position) =
      (bound.ambiguousWith target).map (·.position) := by
    rw [respell_ambiguousWith, List.map_map]
    rfl
  unfold planFor
  rw [valid, validAgain, declaration, ambiguous]
  dsimp only
  cases found : bound.outline.declaration? target with
  | none => rfl
  | some renamed =>
      dsimp only [Option.map_some]
      cases (bound.ambiguousWith target).map (·.position) with
      | cons first rest => rfl
      | nil =>
          have same : ((renamed.respell spell).name == spell newName) = (renamed.name == newName) := by
            apply Bool.eq_iff_iff.mpr
            rw [beq_iff_eq, beq_iff_eq]
            exact kept.name_iff found known
          have oldName : (renamed.respell spell).name = told renamed.name :=
            (agree (kept.declared renamed (Array.mem_of_getElem? found))).symm
          dsimp only
          rw [same, respell_renameSites, respell_verdict kept used known, oldName, ← agree known]
          split
          · rfl
          · cases bound.verdict strict target renamed newName with
            | ok verdict => rfl
            | error position => rfl

end Kept

theorem ofCode_respell {spell : String → String} {names : Set String} {code : Code} [code.layout.Ordered]
    (kept : (Outline.ofCode code).KeptApart spell names)
    (known : code.identifiers ⊆ names) {index : ProjectIndex}
    (answers : ∀ types name, index.member? (types.map spell) (spell name) = index.member? types name) :
    ofCode (code.respell spell) index = (ofCode code index).respell spell := by
  unfold ofCode respell
  rw [Outline.ofCode_respell kept.keywords (kept.apart.mono known),
    Code.respell_references kept (fun position identifier => known ⟨position, identifier, rfl⟩) answers]

/-! ### Respelling nothing -/

theorem ofCode_respell_id {code : Code} [code.layout.Ordered] (index : ProjectIndex) :
    ofCode (code.respell id) index = (ofCode code index).respell id :=
  ofCode_respell (Outline.ofCode code).keptApart_id (Set.subset_univ _) fun types name => by rw [List.map_id]; rfl

theorem planFor_respell_id [bound.outline.Registered] [bound.outline.layout.Ordered] :
    (bound.respell id).planFor = bound.planFor := by
  funext strict target newName
  cases fault : Name.fault? newName with
  | some fault => simp only [planFor, fault]
  | none =>
      have planned := respell_planFor bound.outline.keptApart_id (fun _ _ => Set.mem_univ _) (Set.mem_univ newName)
        (Set.eqOn_refl id _) strict target fault fault
      rw [id_eq] at planned
      rw [planned]
      cases bound.planFor strict target newName with
      | ok accepted => rfl
      | error refusal => cases refusal <;> rfl

end BoundOutline

/-! ### From the tokens of a source -/

namespace Token

def identifiers (tokens : List Token) : Set String :=
  { text | ∃ token ∈ tokens, token.isIdentifier = true ∧ token.text = text }

def respell (tokens : List Token) (spell : String → String) : List Token :=
  layOut 0 (tokens.map fun token => token.toLexeme.respell spell)

variable (tokens : List Token) (spell : String → String)

theorem kinds_respell : (respell tokens spell).map (·.kind) = tokens.map (·.kind) := by
  have laid := congrArg (List.map (·.kind))
    (layOut_map_toLexeme 0 (tokens.map fun token => token.toLexeme.respell spell))
  rw [List.map_map, List.map_map] at laid
  refine laid.trans (List.map_congr_left ?_)
  intro token _
  exact token.toLexeme.respell_kind spell

theorem words_respell : words (respell tokens spell) = (words tokens).map (Lexeme.respell spell) := by
  have laid := congrArg (List.filter fun lexeme : Lexeme => !lexeme.kind.isTrivia)
    (layOut_map_toLexeme 0 (tokens.map fun token => token.toLexeme.respell spell))
  rw [List.filter_map, List.filter_map] at laid
  refine laid.trans ?_
  unfold words
  rw [List.map_map]
  refine congrArg (List.map _) (List.filter_congr ?_)
  intro token _
  dsimp only [Function.comp]
  rw [token.toLexeme.respell_kind spell]

/-- Tokens respelled by valid names are laid out one after the other. -/
theorem respell_tiled {source : String} {tokens : List Token} {spell : String → String}
    (read : ofText source = .ok tokens)
    (valid : ∀ text ∈ identifiers tokens, Name.isValid (spell text) = true) : Tiled (respell tokens spell) := by
  apply layOut_tiled
  intro lexeme member
  obtain ⟨token, listed, rfl⟩ := List.mem_map.mp member
  apply Nat.pos_of_ne_zero
  intro empty
  have blank := String.utf8ByteSize_eq_zero_iff.mp empty
  unfold Lexeme.respell at blank
  split at blank
  · rename_i identifier
    have named := valid token.text ⟨token, listed, identifier, rfl⟩
    rw [show spell token.text = "" from blank] at named
    cases named
  · exact Lexer.scan_text_ne_nil source.toList _ (ofText_scanned read listed) (String.toList_eq_nil_iff.mpr blank)

end Token

/-- The respelling of all texts that a respelling of identifiers amounts to: reserved words stay as they are. -/
def Name.respelling (spell : String → String) (text : String) : String := if isKeyword text then text else spell text

/-- The second code reads like the first with its identifiers respelled: the outline is the same but for the spelling
of names, supertypes and declared types, every use is looked up where it was and denotes what it denoted, and a rename
to a new name that the respelling keeps apart from the others is planned, or refused, in the same places. -/
structure Code.ReadsLike (image code : Code) (spell : String → String) (names : Set String) : Prop where
  outline : (Outline.ofCode image).RecordsLike (Outline.ofCode code) (Name.respelling spell)
  references : (BoundOutline.ofCode image ProjectIndex.empty).references =
    (BoundOutline.ofCode code ProjectIndex.empty).references.map (Reference.respell spell)
  plans : ∀ (strict : Bool) (target : DeclarationId) (newName : String), Set.InjOn spell (insert newName names) →
    Name.fault? (spell newName) = Name.fault? newName →
    (BoundOutline.ofCode image ProjectIndex.empty).planFor strict target (spell newName) =
      (((BoundOutline.ofCode code ProjectIndex.empty).planFor strict target newName).mapError
        (Refusal.respell spell)).map (Renaming.respell spell)

open Classical in
private noncomputable def onlyOn (names : Set String) (spell : String → String) (text : String) : String :=
  if text ∈ names then spell text else text

section Code

variable {code image : Code} {names : Set String} {spell : String → String}
  (known : code.identifiers ⊆ names) (apart : Set.InjOn spell names)
  (free : ∀ text ∈ names, isKeyword text = false) (freeAgain : ∀ text ∈ names, isKeyword (spell text) = false)
  (same : image.respell id = code.respell spell)

private theorem onlyOn_of_mem {text : String} (member : text ∈ names) : onlyOn names spell text = spell text :=
  if_pos member

include free freeAgain in
private theorem onlyOn_keeps : KeepsTypeKeywords (onlyOn names spell) where
  fixes text keyword := by
    refine if_neg fun member => ?_
    rw [isTypeKeyword_of_not_isKeyword (free text member)] at keyword
    cases keyword
  reflects text := by
    unfold onlyOn
    split
    · rename_i member
      rw [isTypeKeyword_of_not_isKeyword (free text member), isTypeKeyword_of_not_isKeyword (freeAgain text member)]
    · rfl

include apart in
private theorem onlyOn_apart : Set.InjOn (onlyOn names spell) names := by
  intro left leftMember right rightMember same
  rw [onlyOn_of_mem leftMember, onlyOn_of_mem rightMember] at same
  exact apart leftMember rightMember same

include known in
private theorem respell_onlyOn : code.respell (onlyOn names spell) = code.respell spell :=
  code.respell_eq_of_eqOn fun _ member => onlyOn_of_mem (known member)

include known apart free freeAgain

private theorem onlyOn_keptApart : (Outline.ofCode code).KeptApart (onlyOn names spell) names where
  keywords := onlyOn_keeps free freeAgain
  apart := onlyOn_apart apart
  declared declaration member := by
    obtain ⟨identifier, named⟩ := Walk.ofCode_named code declaration member
    exact known ⟨declaration.position, identifier, named.symm⟩
  typed declaration member type typed := by
    rcases (Outline.ofCode_records code).type declaration member type typed with identifier | keyword
    · exact Or.inr (known identifier)
    · exact Or.inl keyword

omit apart freeAgain in
private theorem respell_outline_onlyOn :
    (Outline.ofCode code).respell (onlyOn names spell) = (Outline.ofCode code).respell (Name.respelling spell) := by
  have respelling {text : String} (listed : text ∈ names) : onlyOn names spell text = Name.respelling spell text := by
    rw [onlyOn_of_mem listed, Name.respelling, free text listed]
    rfl
  refine (Outline.ofCode_records code).respell_eq ?_ ?_
  · intro text recorded
    rcases recorded with identifier | keyword
    · exact respelling (known identifier)
    · have reserved : isKeyword text = true := by
        by_contra other
        have plain := isTypeKeyword_of_not_isKeyword (Bool.not_eq_true _ ▸ other)
        exact Bool.false_ne_true (plain.symm.trans keyword)
      have unknown : text ∉ names := fun member => Bool.false_ne_true ((free text member).symm.trans reserved)
      rw [Name.respelling, reserved]
      exact if_neg unknown
  · rw [Outline.ofCode_layout]
    exact congrArg Code.layout (code.respell_eq_of_eqOn fun _ identifier => respelling (known identifier))

include same in
private theorem ofCode_onlyOn [code.layout.Ordered] [image.layout.Ordered] :
    (BoundOutline.ofCode image ProjectIndex.empty).respell id =
      (BoundOutline.ofCode code ProjectIndex.empty).respell (onlyOn names spell) := by
  rw [← BoundOutline.ofCode_respell_id, same, ← respell_onlyOn known]
  refine BoundOutline.ofCode_respell (onlyOn_keptApart known apart free freeAgain) known fun types name => ?_
  rw [ProjectIndex.empty_member?, ProjectIndex.empty_member?]

omit apart free freeAgain in
private theorem references_named {index : ProjectIndex} {reference : Reference}
    (used : reference ∈ (BoundOutline.ofCode code index).references.toList) : reference.name ∈ names := by
  obtain ⟨isReference, same⟩ := (code.referenceAt?_eq_some _ index).mp ((code.mem_references _ index).mp used)
  rw [same]
  exact known ⟨reference.position, (Bool.and_eq_true_iff.mp isReference).1, rfl⟩

include same in
/-- Code reads like other code with the identifiers respelled, if these are no reserved words before or after and stay
apart. -/
theorem readsLike_of_respell [code.layout.Ordered] [image.layout.Ordered] : image.ReadsLike code spell names where
  outline := by
    have outlines := congrArg BoundOutline.outline (ofCode_onlyOn known apart free freeAgain same)
    refine Outline.recordsLike_of_respell (outlines.trans (respell_outline_onlyOn known free)) ?_
    intro left leftMember right rightMember alike
    have named {declaration : Declaration} (member : declaration ∈ (Outline.ofCode code).declarations) :
        declaration.name ∈ names := (onlyOn_keptApart known apart free freeAgain).declared declaration member
    rw [Name.respelling, Name.respelling, free _ (named leftMember), free _ (named rightMember)] at alike
    exact apart (named leftMember) (named rightMember) alike
  references := by
    have references := congrArg BoundOutline.references (ofCode_onlyOn known apart free freeAgain same)
    have unchanged : Reference.respell id = id := rfl
    have plain : (BoundOutline.ofCode image ProjectIndex.empty).references.map (Reference.respell id) =
        (BoundOutline.ofCode code ProjectIndex.empty).references.map (Reference.respell (onlyOn names spell)) :=
        references
    rw [unchanged, Array.map_id] at plain
    rw [plain]
    apply Array.map_congr_left
    intro reference member
    unfold Reference.respell
    rw [onlyOn_of_mem (references_named known (Array.mem_toList_iff.mpr member))]
  plans strict target newName extended sameFault := by
    cases fault : Name.fault? newName with
    | some fault =>
        unfold BoundOutline.planFor
        rw [sameFault, fault]
        rfl
    | none =>
        rw [fault] at sameFault
        -- the names together with the new one
        have knownMore : code.identifiers ⊆ insert newName names := known.trans (Set.subset_insert newName names)
        have freeMore : ∀ text ∈ insert newName names, isKeyword text = false :=
          Set.forall_insert_of_forall free (Name.not_isKeyword_of_fault? fault)
        have freeAgainMore : ∀ text ∈ insert newName names, isKeyword (spell text) = false :=
          Set.forall_insert_of_forall freeAgain (Name.not_isKeyword_of_fault? sameFault)
        have member : newName ∈ insert newName names := Set.mem_insert newName names
        have agree : Set.EqOn spell (onlyOn (insert newName names) spell) (insert newName names) :=
          fun _ listed => (onlyOn_of_mem listed).symm
        have used : ∀ reference ∈ (BoundOutline.ofCode code ProjectIndex.empty).references.toList,
            reference.name ∈ insert newName names := fun _ => references_named knownMore
        rw [← BoundOutline.planFor_respell_id, ofCode_onlyOn knownMore extended freeMore freeAgainMore same]
        rw [agree member] at sameFault ⊢
        exact BoundOutline.respell_planFor (onlyOn_keptApart knownMore extended freeMore freeAgainMore) used member agree
          strict target fault sameFault

end Code

/-- Analysis depends on the spelling of identifiers only through which of them are equal. Respell the identifiers of a
source by valid names and keep different ones apart. Then the delimiters fail to pair at the same token of both, or the
respelled tokens read like the tokens of the source, token by token. -/
theorem analysis_parametric {source : String} {tokens : List Token} {spell : String → String}
    (read : Token.ofText source = .ok tokens) (apart : Set.InjOn spell (Token.identifiers tokens))
    (valid : ∀ text ∈ Token.identifiers tokens, Name.isValid (spell text) = true) :
    (Token.respell tokens spell).map (·.kind) = tokens.map (·.kind) ∧
    (Layout.ofTokens (Token.respell tokens spell)).indices = (Layout.ofTokens tokens).indices ∧
    ((∃ fault : BracketFault,
      Code.ofTokens tokens =
        .error (fault.relocate fun position => ((Layout.ofTokens tokens).span position).start) ∧
      Code.ofTokens (Token.respell tokens spell) =
        .error (fault.relocate fun position =>
          ((Layout.ofTokens (Token.respell tokens spell)).span position).start)) ∨
    ∃ code image, Code.ofTokens tokens = .ok code ∧ Code.ofTokens (Token.respell tokens spell) = .ok image ∧
      (Outline.ofCode image).scopesOfTokens = (Outline.ofCode code).scopesOfTokens ∧
      image.ReadsLike code spell (Token.identifiers tokens)) := by
  have kinds := Token.kinds_respell tokens spell
  have words : (Token.words (Token.respell tokens spell)).map (Lexeme.respell id) =
      (Token.words tokens).map (Lexeme.respell spell) := by
    rw [Token.words_respell, Lexeme.respell_id, List.map_id]
  refine ⟨kinds, Layout.indices_of_kinds kinds, ?_⟩
  rcases Code.ofTokens_of_respell words with ⟨fault, _, failed, failedBefore⟩ | ⟨image, code, builtAgain, built, same⟩
  · exact Or.inl ⟨fault, failedBefore, failed⟩
  · right
    have known : code.identifiers ⊆ Token.identifiers tokens := by
      rintro text ⟨position, identifier, spelled⟩
      obtain ⟨token, member, _, isIdentifier, same⟩ := Code.identifier_token built identifier
      exact ⟨token, member, isIdentifier, same.trans spelled⟩
    have free : ∀ text ∈ Token.identifiers tokens, isKeyword text = false := by
      rintro text ⟨token, member, isIdentifier, rfl⟩
      exact Token.ofText_identifier_free read member isIdentifier
    have freeAgain : ∀ text ∈ Token.identifiers tokens, isKeyword (spell text) = false := by
      intro text member
      exact Name.not_isKeyword_of_fault? (Option.isNone_iff_eq_none.mp (valid text member))
    have : code.layout.Ordered := Code.ofTokens_layout built ▸ Layout.ordered_ofTokens (Token.ofText_tiled read)
    have : image.layout.Ordered :=
      Code.ofTokens_layout builtAgain ▸ Layout.ordered_ofTokens (Token.respell_tiled read valid)
    have like := readsLike_of_respell known apart free freeAgain same
    have scopes := Outline.scopesOfTokens_of_kinds kinds builtAgain built like.outline.homes
    exact ⟨code, image, built, builtAgain, scopes, like⟩

/-- A class with a constructor and an array field, every identifier with a letter added. -/
theorem analysis_parametric_class :
    ∃ tokens code image,
      Token.ofText "class A { A[] x; A(int y) { x = y; } int f(A y) { return y.x; } }" = .ok tokens ∧
      Code.ofTokens tokens = .ok code ∧ Code.ofTokens (Token.respell tokens (· ++ "q")) = .ok image ∧
      String.join ((Token.respell tokens (· ++ "q")).map (·.text)) =
        "class Aq { Aq[] xq; Aq(int yq) { xq = yq; } int fq(Aq yq) { return yq.xq; } }" ∧
      image.ReadsLike code (· ++ "q") (Token.identifiers tokens) ∧
      (BoundOutline.ofCode code ProjectIndex.empty).planFor false 1 "size" =
        .ok ⟨1, .field, "x", "size", [6, 14, 29], .clear⟩ ∧
      (BoundOutline.ofCode image ProjectIndex.empty).planFor false 1 "sizeq" =
        .ok ⟨1, .field, "xq", "sizeq", [6, 14, 29], .clear⟩ := by
  have computed :
      ((Token.ofText "class A { A[] x; A(int y) { x = y; } int f(A y) { return y.x; } }").toOption.any fun tokens =>
        tokens.all (fun token => !token.isIdentifier || Name.isValid (token.text ++ "q")) &&
        String.join ((Token.respell tokens (· ++ "q")).map (·.text)) ==
          "class Aq { Aq[] xq; Aq(int yq) { xq = yq; } int fq(Aq yq) { return yq.xq; } }" &&
        (Code.ofTokens tokens).toOption.any fun code =>
          (BoundOutline.ofCode code ProjectIndex.empty).planFor false 1 "size" ==
            .ok ⟨1, .field, "x", "size", [6, 14, 29], .clear⟩) = true := by
    decide +kernel
  obtain ⟨tokens, read, facts⟩ := exists_ok_of_any computed
  simp only [Bool.and_eq_true, beq_iff_eq, List.all_eq_true, Bool.or_eq_true, Bool.not_eq_true'] at facts
  obtain ⟨⟨names, text⟩, further⟩ := facts
  obtain ⟨code, built, planned⟩ := exists_ok_of_any further
  have apart : Set.InjOn (fun text : String => text ++ "q") (Token.identifiers tokens) :=
    fun _ _ _ _ same => (String.append_left_inj "q").mp same
  have valid : ∀ text ∈ Token.identifiers tokens, Name.isValid (text ++ "q") = true := by
    rintro text ⟨token, member, identifier, rfl⟩
    rcases names token member with other | valid
    · rw [identifier] at other
      cases other
    · exact valid
  rcases (analysis_parametric read apart valid).2.2 with
    ⟨fault, failed, _⟩ | ⟨same, image, builtSame, builtAgain, _, like⟩
  · rw [built] at failed
    cases failed
  · rw [built] at builtSame
    cases builtSame
    have accepted := beq_iff_eq.mp planned
    have again := like.plans false 1 "size" (fun _ _ _ _ same => (String.append_left_inj "q").mp same)
      (by decide +kernel)
    rw [accepted] at again
    exact ⟨tokens, code, image, read, built, builtAgain, text, like, accepted, again⟩

end ScopedRename
