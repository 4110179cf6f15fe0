import ScopedRename.Proofs.Plan.Exact
import ScopedRename.Proofs.Text.Hashes

/-!
Which plans can be carried out. A plan may come from anywhere: its spans may be unordered, repeated, off the tokens or
behind the end, its names and its hash may be anything. Main statement: a plan fits the text exactly if it was made for
it and its spans are, in order, identifiers with the old name; any other plan is stale, and the report names the text
or the first span that does not fit.
-/

namespace ScopedRename

def Span.Before (span other : Span) : Prop :=
  span.start < other.start ∨ span.start = other.start ∧ span.stop < other.stop

def Staleness.span? : Staleness → Option Span
  | .otherText _ _ => none
  | .offBoundary span | .notIdentifier span _ | .pastEnd span | .outOfBounds span => some span

namespace RenamePlan

variable {plan : RenamePlan} {token : Token} {tokens rest : List Token} {span : Span} {spans before : List Span}

/-- The spans come in order, and each is the span of an identifier with the old name. -/
structure Placed (plan : RenamePlan) (tokens : List Token) (spans : List Span) : Prop where
  ascending : spans.Pairwise Span.Before
  spelled : ∀ span ∈ spans, ∃ token ∈ tokens,
    token.span = span ∧ token.isIdentifier = true ∧ token.text = plan.oldName

def Fits (plan : RenamePlan) (source : String) (tokens : List Token) : Prop :=
  plan.sourceHash = ContentHash.ofText source ∧ plan.Placed tokens plan.spans

/-- The report names the first span that does not fit behind those in front of it. -/
def Blames (plan : RenamePlan) (tokens : List Token) (spans : List Span) (staleness : Staleness) : Prop :=
  ∃ before span after, spans = before ++ span :: after ∧ staleness.span? = some span ∧
    plan.Placed tokens before ∧ ¬plan.Placed tokens (before ++ [span])

def rewritten (plan : RenamePlan) (tokens : List Token) : String :=
  String.join (tokens.map fun token => if token.span ∈ plan.spans then plan.newName else token.text)

namespace Placed

theorem nil (plan : RenamePlan) (tokens : List Token) : plan.Placed tokens [] := by
  refine ⟨List.Pairwise.nil, ?_⟩
  intro span impossible
  cases impossible

theorem sublist (placed : plan.Placed tokens spans) (fewer : before.Sublist spans) : plan.Placed tokens before :=
  ⟨placed.ascending.sublist fewer, fun span member => placed.spelled span (fewer.subset member)⟩

/-- Spans of tokens that come in order start one after the other. -/
theorem starts (placed : plan.Placed tokens spans) (tiled : Token.Tiled tokens) :
    spans.Pairwise fun left right => left.start < right.start := by
  refine placed.ascending.imp_of_mem ?_
  intro left right leftMember rightMember ordered
  rcases ordered with earlier | ⟨sameStart, shorter⟩
  · exact earlier
  · obtain ⟨leftToken, leftInside, leftSpan, _⟩ := placed.spelled left leftMember
    obtain ⟨rightToken, rightInside, rightSpan, _⟩ := placed.spelled right rightMember
    have same := tiled.eq_of_start_eq leftInside rightInside (by rw [leftSpan, rightSpan]; exact sameStart)
    rw [← leftSpan, ← rightSpan, same] at shorter
    exact absurd shorter (Nat.lt_irrefl _)

theorem behind (placed : plan.Placed rest spans) (tiled : Token.Tiled (token :: rest)) :
    ∀ span ∈ spans, token.span.start < span.start := by
  intro span member
  obtain ⟨named, inside, same, _⟩ := placed.spelled span member
  rw [← same]
  exact tiled.start_lt inside

theorem cons_token (placed : plan.Placed rest spans) (token : Token) : plan.Placed (token :: rest) spans := by
  refine ⟨placed.ascending, ?_⟩
  intro span member
  obtain ⟨named, inside, facts⟩ := placed.spelled span member
  exact ⟨named, List.mem_cons_of_mem _ inside, facts⟩

theorem of_cons_token (placed : plan.Placed (token :: rest) spans)
    (ahead : ∀ span ∈ spans, token.span.start < span.start) : plan.Placed rest spans := by
  refine ⟨placed.ascending, ?_⟩
  intro span member
  obtain ⟨named, inside, same, facts⟩ := placed.spelled span member
  rcases List.mem_cons.mp inside with rfl | further
  · have later := ahead span member
    rw [same] at later
    exact absurd later (Nat.lt_irrefl _)
  · exact ⟨named, further, same, facts⟩

/-- If the first span starts behind the first token, so do the others. -/
theorem skip_iff (tiled : Token.Tiled (token :: rest)) (later : token.span.start < span.start) :
    plan.Placed (token :: rest) (span :: spans) ↔ plan.Placed rest (span :: spans) := by
  constructor
  · intro placed
    refine placed.of_cons_token ?_
    intro other member
    rcases List.mem_cons.mp member with rfl | further
    · exact later
    · exact Nat.lt_trans later ((List.pairwise_cons.mp (placed.starts tiled)).1 other further)
  · intro placed
    exact placed.cons_token token

/-- The span of the first token, then spans of the tokens behind it. -/
theorem take_iff (tiled : Token.Tiled (token :: rest)) (identifier : token.isIdentifier = true)
    (text : token.text = plan.oldName) :
    plan.Placed (token :: rest) (token.span :: spans) ↔ plan.Placed rest spans := by
  constructor
  · intro placed
    exact (placed.sublist (List.sublist_cons_self _ _)).of_cons_token (List.pairwise_cons.mp (placed.starts tiled)).1
  · intro placed
    have further := placed.cons_token token
    refine ⟨List.pairwise_cons.mpr ⟨fun span member => Or.inl (placed.behind tiled span member),
      further.ascending⟩, ?_⟩
    intro span member
    rcases List.mem_cons.mp member with rfl | later
    · exact ⟨token, List.mem_cons_self, rfl, identifier, text⟩
    · exact further.spelled span later

end Placed

theorem Blames.first {staleness : Staleness} (names : staleness.span? = some span)
    (misplaced : ∀ token ∈ tokens, token.span = span → token.isIdentifier = true → token.text ≠ plan.oldName) :
    plan.Blames tokens (span :: spans) staleness := by
  refine ⟨[], span, spans, rfl, names, Placed.nil plan tokens, ?_⟩
  intro placed
  obtain ⟨token, inside, same, identifier, text⟩ := placed.spelled span List.mem_cons_self
  exact misplaced token inside same identifier text

/-- A token in front of all the spans takes no part in the blame. -/
theorem Blames.pass {staleness : Staleness} (tiled : Token.Tiled (token :: rest))
    (later : token.span.start < span.start) (blames : plan.Blames rest (span :: spans) staleness) :
    plan.Blames (token :: rest) (span :: spans) staleness := by
  obtain ⟨before, blamed, after, shape, names, placed, misplaced⟩ := blames
  refine ⟨before, blamed, after, shape, names, placed.cons_token token, ?_⟩
  -- the blamed span and those before it start with the first one
  obtain ⟨more, starts⟩ : ∃ more, before ++ [blamed] = span :: more := by
    cases before with
    | nil =>
        cases shape
        exact ⟨[], rfl⟩
    | cons first others =>
        cases shape
        exact ⟨others ++ [blamed], rfl⟩
  rw [starts] at misplaced ⊢
  exact fun all => misplaced ((Placed.skip_iff tiled later).mp all)

/-- Behind a span that is placed, the blame is what it is for the tokens and spans that remain. -/
theorem Blames.take {staleness : Staleness} (tiled : Token.Tiled (token :: rest))
    (identifier : token.isIdentifier = true)
    (text : token.text = plan.oldName) (blames : plan.Blames rest spans staleness) :
    plan.Blames (token :: rest) (token.span :: spans) staleness := by
  obtain ⟨before, span, after, shape, names, placed, misplaced⟩ := blames
  refine ⟨token.span :: before, span, after, congrArg (token.span :: ·) shape, names, ?_, ?_⟩
  · exact (Placed.take_iff tiled identifier text).mpr placed
  · exact fun all => misplaced ((Placed.take_iff tiled identifier text).mp all)

theorem not_blames_nil {staleness : Staleness} : ¬plan.Blames tokens [] staleness := by
  rintro ⟨before, span, after, impossible, _⟩
  simp at impossible

/-- What the pass over the tokens makes of the spans still to come. -/
theorem substitute_cases (tiled : Token.Tiled tokens) (spans : List Span) :
    (∃ texts, plan.substitute tokens spans = .ok texts) ∧ plan.Placed tokens spans ∨
      ∃ staleness, plan.substitute tokens spans = .error staleness ∧ plan.Blames tokens spans staleness := by
  induction tokens generalizing spans with
  | nil =>
      cases spans with
      | nil => exact Or.inl ⟨⟨[], rfl⟩, Placed.nil plan []⟩
      | cons span pending =>
          refine Or.inr ⟨.pastEnd span, rfl, Blames.first rfl ?_⟩
          intro token impossible
          cases impossible
  | cons token rest ih =>
      cases spans with
      | nil =>
          rw [substitute_pass plan (fun next impossible => by cases impossible)]
          rcases ih tiled.tail [] with ⟨⟨texts, substituted⟩, _⟩ | ⟨_, _, blames⟩
          · exact Or.inl ⟨⟨token.text :: texts, by rw [substituted]; rfl⟩, Placed.nil plan _⟩
          · exact absurd blames not_blames_nil
      | cons span pending =>
          rcases Nat.lt_trichotomy span.start token.span.start with early | here | later
          · refine Or.inr ⟨.offBoundary span, plan.substitute_early early, Blames.first rfl ?_⟩
            intro named inside same _ _
            rcases List.mem_cons.mp inside with rfl | further
            · rw [same] at early
              exact Nat.lt_irrefl _ early
            · have behind := tiled.start_lt further
              rw [same] at behind
              omega
          · by_cases fits : span = token.span ∧ token.isIdentifier = true ∧ token.text = plan.oldName
            · obtain ⟨rfl, identifier, text⟩ := fits
              rw [substitute_take plan identifier text]
              rcases ih tiled.tail pending with ⟨⟨texts, substituted⟩, placed⟩ | ⟨staleness, failed, blames⟩
              · refine Or.inl ⟨⟨plan.newName :: texts, by rw [substituted]; rfl⟩, ?_⟩
                exact (Placed.take_iff tiled identifier text).mpr placed
              · exact Or.inr ⟨staleness, by rw [failed]; rfl, blames.take tiled identifier text⟩
            · refine Or.inr ⟨_, plan.substitute_unlike here fits, Blames.first rfl ?_⟩
              intro named inside same identifier text
              have first : named = token :=
                tiled.eq_of_start_eq inside List.mem_cons_self (by rw [same]; exact here)
              subst first
              exact fits ⟨same.symm, identifier, text⟩
          · rw [substitute_pass plan (fun next first => Option.some.inj first ▸ later)]
            rcases ih tiled.tail (span :: pending) with ⟨⟨texts, substituted⟩, placed⟩ | ⟨staleness, failed, blames⟩
            · exact Or.inl ⟨⟨token.text :: texts, by rw [substituted]; rfl⟩, placed.cons_token token⟩
            · exact Or.inr ⟨staleness, by rw [failed]; rfl, blames.pass tiled later⟩

theorem substitute_of_placed (tiled : Token.Tiled tokens) (placed : plan.Placed tokens spans) :
    plan.substitute tokens spans =
      .ok (tokens.map fun token => if token.span ∈ spans then plan.newName else token.text) :=
  plan.substitute_eq_ok tiled (placed.starts tiled) placed.spelled

theorem checkFresh_eq_ok_iff {source : String} :
    plan.checkFresh source = .ok () ↔ plan.sourceHash = ContentHash.ofText source := by
  unfold checkFresh
  dsimp only
  split
  · rename_i same
    exact iff_of_true rfl same.symm
  · rename_i other
    refine iff_of_false ?_ fun same => other same.symm
    split
    · simp
    · simp

/-- A plan for another text is refused with both hashes, unless its own cannot be shortened. -/
theorem checkFresh_of_ne {source : String} (other : plan.sourceHash ≠ ContentHash.ofText source) :
    plan.sourceHash.Straddles ∧ plan.checkFresh source = .error .crash ∨
      ¬plan.sourceHash.Straddles ∧ ∃ actual planned, (ContentHash.ofText source).short? = some actual ∧
        plan.sourceHash.short? = some planned ∧
        plan.checkFresh source = .error (.stale (.otherText actual planned)) := by
  obtain ⟨actual, own⟩ := ContentHash.exists_short?_ofText source
  unfold checkFresh
  dsimp only
  rw [if_neg fun same => other same.symm, own]
  cases cut : plan.sourceHash.short? with
  | none => exact Or.inl ⟨ContentHash.short?_eq_none_iff.mp cut, rfl⟩
  | some planned =>
      refine Or.inr ⟨?_, actual, planned, rfl, rfl, rfl⟩
      intro straddles
      rw [ContentHash.short?_eq_none_iff.mpr straddles] at cut
      cases cut

theorem apply_of_fits {source : String} (tiled : Token.Tiled tokens) (fits : plan.Fits source tokens) :
    plan.apply source tokens = .ok (plan.rewritten tokens) := by
  unfold apply
  rw [checkFresh_eq_ok_iff.mpr fits.1, substitute_of_placed tiled fits.2]
  rfl

/-- A plan that does not fit is refused for the text it was made for, or for a span. -/
theorem apply_of_not_fits {source : String} (tiled : Token.Tiled tokens) (unfit : ¬plan.Fits source tokens) :
    plan.sourceHash = ContentHash.ofText source ∧
        (∃ staleness, plan.apply source tokens = .error (.stale staleness) ∧
          plan.Blames tokens plan.spans staleness) ∨
      plan.sourceHash ≠ ContentHash.ofText source ∧
        (plan.sourceHash.Straddles ∧ plan.apply source tokens = .error .crash ∨
          ¬plan.sourceHash.Straddles ∧ ∃ actual planned, (ContentHash.ofText source).short? = some actual ∧
            plan.sourceHash.short? = some planned ∧
            plan.apply source tokens = .error (.stale (.otherText actual planned))) := by
  by_cases fresh : plan.sourceHash = ContentHash.ofText source
  · rcases plan.substitute_cases tiled plan.spans with ⟨_, placed⟩ | ⟨staleness, failed, blames⟩
    · exact absurd ⟨fresh, placed⟩ unfit
    · refine Or.inl ⟨fresh, staleness, ?_, blames⟩
      unfold apply
      rw [checkFresh_eq_ok_iff.mpr fresh, failed]
      rfl
  · refine Or.inr ⟨fresh, ?_⟩
    unfold apply
    rcases plan.checkFresh_of_ne fresh with ⟨straddles, stopped⟩ | ⟨cuts, actual, planned, own, other, refused⟩
    · rw [stopped]
      exact Or.inl ⟨straddles, rfl⟩
    · rw [refused]
      exact Or.inr ⟨cuts, actual, planned, own, other, rfl⟩

theorem apply_eq_ok_iff {source text : String} (tiled : Token.Tiled tokens) :
    plan.apply source tokens = .ok text ↔ plan.Fits source tokens ∧ text = plan.rewritten tokens := by
  by_cases fits : plan.Fits source tokens
  · rw [apply_of_fits tiled fits, Except.ok.injEq, and_iff_right fits]
    exact eq_comm
  · rcases apply_of_not_fits tiled fits with
      ⟨_, _, failed, _⟩ | ⟨_, ⟨_, failed⟩ | ⟨_, _, _, _, _, failed⟩⟩
    · simp [failed, fits]
    · simp [failed, fits]
    · simp [failed, fits]

end RenamePlan

/-- Of all plans, whatever their spans, names and hash, exactly those are carried out that were made for the text and
whose spans are, in ascending order, spans of identifiers with the old name; the result is then the text with these
replaced. Any other plan gives no text. It is reported as stale, by the two hashes if they differ and else by the first
span that does not fit behind those in front of it, unless its hash differs and has a character across the twelfth byte:
then the report itself fails. -/
theorem apply_accepts_iff {source : String} {tokens : List Token} (split : Token.ofText source = .ok tokens)
    (plan : RenamePlan) :
    ((∃ text, plan.apply source tokens = .ok text) ↔ plan.Fits source tokens) ∧
    (plan.Fits source tokens → plan.apply source tokens = .ok (plan.rewritten tokens)) ∧
    ((∃ staleness, (plan.apply source tokens).mapError RenameError.ofApply = .error (.stalePlan staleness)) ↔
      ¬plan.Fits source tokens ∧ (plan.sourceHash = ContentHash.ofText source ∨ ¬plan.sourceHash.Straddles)) ∧
    (∀ staleness, plan.apply source tokens = .error (.stale staleness) →
      plan.sourceHash = ContentHash.ofText source ∧ plan.Blames tokens plan.spans staleness ∨
      plan.sourceHash ≠ ContentHash.ofText source ∧ ∃ actual planned,
        (ContentHash.ofText source).short? = some actual ∧ plan.sourceHash.short? = some planned ∧
        staleness = .otherText actual planned) := by
  have tiled := Token.ofText_tiled split
  by_cases fits : plan.Fits source tokens
  · have applied := RenamePlan.apply_of_fits tiled fits
    simp [applied, fits, Except.mapError]
  · rcases RenamePlan.apply_of_not_fits tiled fits with
      ⟨fresh, _, failed, blames⟩ | ⟨other, ⟨straddles, failed⟩ | ⟨cuts, actual, planned, own, shortened, failed⟩⟩
    · simp [failed, fits, fresh, blames, Except.mapError, RenameError.ofApply]
    · simp [failed, fits, other, straddles, Except.mapError, RenameError.ofApply]
    · simp [failed, fits, other, cuts, own, shortened, Except.mapError, RenameError.ofApply]

/-- A hash that was made up: the twelfth byte is the first half of a letter, and the plan is not reported as stale. -/
theorem apply_crashes :
    ∃ (tokens : List Token) (plan : RenamePlan), Token.ofText "n = n;" = .ok tokens ∧ plan.sourceHash = ⟨"aéééééé"⟩ ∧
      ¬plan.Fits "n = n;" tokens ∧ plan.apply "n = n;" tokens = .error .crash ∧
      ∀ staleness, (plan.apply "n = n;" tokens).mapError RenameError.ofApply ≠ .error (.stalePlan staleness) := by
  have other : ContentHash.ofText "n = n;" ≠ ⟨"aéééééé"⟩ := by decide +kernel
  have cut : (ContentHash.mk "aéééééé").short? = none := by decide +kernel
  let plan : RenamePlan := ⟨0, .localVariable, "n", "m", [], .clear, ⟨"aéééééé"⟩⟩
  have crashed (tokens : List Token) : plan.apply "n = n;" tokens = .error .crash := by
    unfold RenamePlan.apply RenamePlan.checkFresh
    dsimp only
    rw [if_neg other, cut]
    split
    · rename_i impossible
      cases impossible
    · rfl
  refine ⟨[⟨⟨.identifier, "n"⟩, ⟨0, 1⟩⟩, ⟨⟨.whitespace, " "⟩, ⟨1, 2⟩⟩, ⟨⟨.punctuation, "="⟩, ⟨2, 3⟩⟩,
    ⟨⟨.whitespace, " "⟩, ⟨3, 4⟩⟩, ⟨⟨.identifier, "n"⟩, ⟨4, 5⟩⟩, ⟨⟨.punctuation, ";"⟩, ⟨5, 6⟩⟩], plan, ?_, rfl, ?_,
    crashed _, ?_⟩
  · decide +kernel
  · rintro ⟨same, _⟩
    exact other same.symm
  · rw [crashed]
    intro staleness impossible
    cases impossible

/-- Two uses of a name: their spans are accepted in order, and refused the other way round. -/
theorem apply_accepts_iff_order :
    ∃ (tokens : List Token) (plan : RenamePlan), Token.ofText "n = n;" = .ok tokens ∧ plan.spans = [⟨0, 1⟩, ⟨4, 5⟩] ∧
      plan.apply "n = n;" tokens = .ok "m = m;" ∧
      ∃ staleness, { plan with spans := [⟨4, 5⟩, ⟨0, 1⟩] }.apply "n = n;" tokens = .error (.stale staleness) := by
  have split : Token.ofText "n = n;" =
      .ok [⟨⟨.identifier, "n"⟩, ⟨0, 1⟩⟩, ⟨⟨.whitespace, " "⟩, ⟨1, 2⟩⟩, ⟨⟨.punctuation, "="⟩, ⟨2, 3⟩⟩,
        ⟨⟨.whitespace, " "⟩, ⟨3, 4⟩⟩, ⟨⟨.identifier, "n"⟩, ⟨4, 5⟩⟩, ⟨⟨.punctuation, ";"⟩, ⟨5, 6⟩⟩] := by
    decide +kernel
  let plan : RenamePlan := ⟨0, .localVariable, "n", "m", [⟨0, 1⟩, ⟨4, 5⟩], .clear, ContentHash.ofText "n = n;"⟩
  refine ⟨_, plan, split, rfl, ?_, ?_⟩
  · rw [(apply_accepts_iff split plan).2.1 ⟨rfl, ?_, ?_⟩]
    · decide +kernel
    · exact List.pairwise_pair.mpr (Or.inl (by decide))
    · simp [plan, Lexeme.isIdentifier]
  · obtain ⟨staleness, failed⟩ := (apply_accepts_iff split { plan with spans := [⟨4, 5⟩, ⟨0, 1⟩] }).2.2.1.mpr
      ⟨by
        rintro ⟨_, placed⟩
        exact absurd (List.pairwise_pair.mp placed.ascending) (by unfold Span.Before; decide), Or.inl rfl⟩
    obtain ⟨cause, stopped, same⟩ := mapError_eq_error.mp failed
    cases cause with
    | stale staleness => exact ⟨staleness, stopped⟩
    | crash => cases same

end ScopedRename
