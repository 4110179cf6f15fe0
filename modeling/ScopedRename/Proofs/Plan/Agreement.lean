import ScopedRename.Proofs.Fallible
import ScopedRename.Proofs.Plan.Staleness
import ScopedRename.Proofs.Text.Template
import ScopedRename.Proofs.Token.Lossless

/-!
The rewritten text, the edits and the unified diff of one plan. Source and result are one template, filled with the old
and with the new name, and the planned spans are its holes. Main statement: making the edits, the last one first, gives
the result; the lengths differ by what the edits add and remove; and the diff has a hunk for each line with a planned
span, which holds that line of the source and of the result, while all other lines are equal.
-/

namespace ScopedRename

open Text Template

/-! ### Edits made one by one -/

def Edit.splice? (edit : Edit) (text : String) : Option String := do
  let (before, rest) ← Text.splitAtByte text.toList edit.span.start
  let (_, after) ← Text.splitAtByte rest edit.span.length
  return String.ofList before ++ edit.newText ++ String.ofList after

def Patch.splice? (patch : Patch) (text : String) : Option String := patch.edits.foldrM Edit.splice? text

def Edit.ofSpan (file source oldText newText : String) (span : Span) : Edit :=
  { file, span, oldText, newText, position := (Lines.ofText source).position span.start }

theorem Edit.splice?_of_split {edit : Edit} {ahead word behind : List Char}
    (start : edit.span.start = bytes ahead) (stop : edit.span.stop = bytes ahead + bytes word) :
    edit.splice? (String.ofList (ahead ++ word ++ behind)) =
      some (String.ofList (ahead ++ edit.newText.toList ++ behind)) := by
  have length : edit.span.length = bytes word := by
    unfold Span.length
    omega
  have cut := Text.splitAtByte_append ahead (word ++ behind)
  have inside := Text.splitAtByte_append word behind
  rw [← List.append_assoc] at cut
  unfold splice?
  rw [String.toList_ofList, start, length, bytes, cut]
  dsimp only [bind, Option.bind, pure]
  rw [bytes, inside]
  rw [String.ofList_append, String.ofList_append, String.ofList_toList]

section Filled

variable (file : String) (old new : List Char)

/-- Making the edits at all holes turns one filling into the other. -/
theorem splice?_fill (source : String) (ahead : List Char) (template : List (Option Char)) :
    ((holes old (bytes ahead) template).map (Edit.ofSpan file source (String.ofList old) (String.ofList new))).foldrM
        Edit.splice? (String.ofList (ahead ++ fill old template)) =
      some (String.ofList (ahead ++ fill new template)) := by
  induction template generalizing ahead with
  | nil => rfl
  | cons piece rest ih =>
      cases piece with
      | none =>
          have further := ih (ahead ++ old)
          rw [bytes_append, List.append_assoc] at further
          rw [holes, List.map_cons, List.foldrM_cons, fill, further, fill]
          -- the edits behind have left the first hole where it was
          rw [Option.bind_eq_bind, Option.bind_some, ← List.append_assoc, Edit.splice?_of_split rfl rfl]
          simp [Edit.ofSpan]
      | some c =>
          have further := ih (ahead ++ [c])
          simpa [holes, fill] using further

/-- The lengths of the two fillings differ by the words put into the holes. -/
theorem bytes_fill (offset : Nat) (template : List (Option Char)) :
    bytes (fill new template) + (holes old offset template).length * bytes old =
      bytes (fill old template) + (holes old offset template).length * bytes new := by
  induction template generalizing offset with
  | nil => simp [holes, fill]
  | cons piece rest ih =>
      cases piece with
      | none =>
          have further := ih (offset + bytes old)
          simp only [holes, fill, List.length_cons, bytes_append, Nat.add_mul, Nat.one_mul]
          omega
      | some c =>
          have further := ih (offset + c.utf8Size)
          simp only [holes, fill, bytes_cons]
          omega

/-! ### Lines with their edits -/

private theorem getD_slice? {source : String} {ahead inside behind : List Char}
    (whole : source.toList = ahead ++ inside ++ behind) :
    ((Span.mk (bytes ahead) (bytes (ahead ++ inside))).slice? source).getD "" = String.ofList inside := by
  rw [← String.toList_ofList (l := inside)] at whole ⊢
  rw [Token.slice?_of_split whole rfl rfl, String.toList_ofList]
  rfl

/-- A line is put together with its edits: what stands before the next hole, then the new word, and so on. -/
theorem editedLine_fill {source : String} {ahead plain behind : List Char} {row : List (Option Char)}
    (whole : source.toList = ahead ++ (plain ++ fill old row) ++ behind) :
    Diff.editedLine source (bytes (ahead ++ (plain ++ fill old row))) (bytes ahead)
        ((holes old (bytes (ahead ++ plain)) row).map
          (Edit.ofSpan file source (String.ofList old) (String.ofList new))) =
      String.ofList (plain ++ fill new row) := by
  induction row generalizing ahead plain with
  | nil =>
      simp only [holes, fill, List.map_nil, List.append_nil, Diff.editedLine] at whole ⊢
      exact getD_slice? whole
  | cons piece row ih =>
      cases piece with
      | none =>
          have front : source.toList = ahead ++ plain ++ (old ++ fill old row ++ behind) := by
            rw [whole, fill]
            simp only [List.append_assoc]
          have rest : source.toList = (ahead ++ (plain ++ old)) ++ ([] ++ fill old row) ++ behind := by
            rw [whole, fill]
            simp only [List.append_assoc, List.nil_append]
          have further := ih rest
          simp only [List.nil_append, List.append_nil, List.append_assoc] at further
          rw [holes, List.map_cons, Diff.editedLine, if_neg]
          · simp only [Edit.ofSpan] at further ⊢
            rw [getD_slice? front, ← bytes_append, List.append_assoc, fill, further]
            simp only [fill, String.ofList_append, String.append_assoc]
          · simp only [Edit.ofSpan, fill, bytes_append, Bool.or_eq_true, decide_eq_true_eq]
            omega
      | some c =>
          have longer : source.toList = ahead ++ ((plain ++ [c]) ++ fill old row) ++ behind := by
            rw [whole, fill]
            simp only [List.append_assoc, List.singleton_append]
          have further := ih longer
          simp only [holes, fill, List.append_assoc, List.singleton_append, bytes_append, bytes_cons, bytes_nil,
            Nat.add_zero, Nat.add_assoc] at further ⊢
          exact further

end Filled

/-! ### Hunks -/

namespace Template

def edits (file : String) (old new : List Char) (template : List (Option Char)) : List Edit :=
  (holes old 0 template).map
    (Edit.ofSpan file (String.ofList (fill old template)) (String.ofList old) (String.ofList new))

def changed (old new : List Char) (line : Nat) (row : List (Option Char)) : Hunk :=
  ⟨line, String.ofList (fill old row), String.ofList (fill new row)⟩

theorem fill_eq_of_not_mem {template : List (Option Char)} (full : none ∉ template) (old new : List Char) :
    fill old template = fill new template := by
  induction template with
  | nil => rfl
  | cons piece rest ih =>
      have further := ih fun member => full (List.mem_cons_of_mem piece member)
      cases piece with
      | none => exact absurd List.mem_cons_self full
      | some c => rw [fill, fill, further]

variable {file : String} {old new : List Char} {template : List (Option Char)}
  (flat : none ∈ template → '\n' ∉ old) (fits : ∀ span ∈ holes old 0 template, span.start + 1 < 2 ^ 32)

include flat fits

theorem line_of_numbered {number : Nat} {span : Span} (member : (number, span) ∈ numbered old 1 0 (rows template)) :
    ((Lines.ofText (String.ofList (fill old template))).position span.start).line = number := by
  obtain ⟨before, row, after, shape, counted, inside⟩ := mem_numbered.mp member
  rw [Nat.zero_add] at inside
  rw [position_of_hole flat shape inside (fits span (mem_holes_iff.mpr ⟨before, row, after, shape, inside⟩)), counted,
    Nat.add_comm]

theorem map_line_edits :
    (edits file old new template).map (·.position.line) = (numbered old 1 0 (rows template)).map (·.1) := by
  unfold edits
  rw [← numbered_rows 1 0 template, List.map_map, List.map_map]
  apply List.map_congr_left
  rintro ⟨number, span⟩ member
  exact line_of_numbered flat fits member

/-- The edits of one line are made at the holes of one row. -/
theorem filter_edits {before after : List (List (Option Char))} {row : List (Option Char)}
    (shape : rows template = before ++ row :: after) :
    (edits file old new template).filter (·.position.line == before.length + 1) =
      (holes old (rowsThrough old before) row).map
        (Edit.ofSpan file (String.ofList (fill old template)) (String.ofList old) (String.ofList new)) := by
  have own := filter_numbered old 1 0 before row after
  rw [← shape, Nat.zero_add, Nat.add_comm 1] at own
  unfold edits
  rw [← numbered_rows 1 0 template, List.map_map, List.filter_map]
  have same : (numbered old 1 0 (rows template)).filter ((fun edit : Edit => edit.position.line == before.length + 1) ∘
      (Edit.ofSpan file (String.ofList (fill old template)) (String.ofList old) (String.ofList new) ∘ (·.2))) =
      (numbered old 1 0 (rows template)).filter (·.1 == before.length + 1) := by
    apply List.filter_congr
    rintro ⟨number, span⟩ member
    have line := line_of_numbered flat fits member
    simp only [Function.comp_apply, Edit.ofSpan, line]
  rw [same, own, List.map_map]
  rfl

/-- A row with holes has its line's hunk. -/
theorem hunk?_fill {before after : List (List (Option Char))} {row : List (Option Char)}
    (shape : rows template = before ++ row :: after) (hole : none ∈ row) :
    Diff.hunk? (String.ofList (fill old template)) (Lines.ofText (String.ofList (fill old template)))
        (before.length + 1) ((edits file old new template).filter (·.position.line == before.length + 1)) =
      some (changed old new (before.length + 1) row) := by
  obtain ⟨ahead, behind, split, size⟩ := template_split old shape
  have whole : (String.ofList (fill old template)).toList = fill old ahead ++ ([] ++ fill old row) ++ fill old behind := by
    rw [String.toList_ofList, split, fill_append, fill_append]
    rfl
  have ordered : ((holes old (rowsThrough old before) row).map (Edit.ofSpan file (String.ofList (fill old template))
      (String.ofList old) (String.ofList new))).Pairwise fun left right => left.span.start ≤ right.span.start := by
    rw [List.pairwise_map]
    refine (holes_ordered _ row).imp_of_mem ?_
    intro left right leftMember _ apart
    have sized := (mem_holes leftMember).2.1
    simp only [Edit.ofSpan]
    omega
  obtain ⟨_, inside⟩ := exists_mem_holes.mpr hole
  obtain ⟨first, rest, listed⟩ : ∃ first rest, holes old (rowsThrough old before) row = first :: rest :=
    List.exists_cons_of_ne_nil (List.ne_nil_of_mem inside)
  have bounds := bounds_of_hole flat shape (listed ▸ List.mem_cons_self : first ∈ _)
  have oldLine := getD_slice? whole
  have newLine := editedLine_fill file old new whole
  simp only [List.nil_append, List.append_nil, bytes_append, size] at oldLine newLine
  rw [filter_edits flat fits shape]
  unfold Diff.hunk?
  rw [List.mergeSort_of_pairwise (ordered.imp decide_eq_true)]
  rw [listed, List.map_cons] at newLine ⊢
  dsimp only [Edit.ofSpan] at newLine ⊢
  rw [bounds, oldLine, newLine]
  rfl

/-- There is a hunk for every row with holes, and no other. -/
theorem mem_hunks {hunk : Hunk} :
    hunk ∈ Diff.hunks (String.ofList (fill old template)) (edits file old new template) ↔
      ∃ before row after, rows template = before ++ row :: after ∧ none ∈ row ∧
        hunk = changed old new (before.length + 1) row := by
  unfold Diff.hunks
  rw [List.mem_filterMap, map_line_edits flat fits]
  constructor
  · rintro ⟨number, listed, found⟩
    obtain ⟨⟨_, span⟩, member, rfl⟩ := List.mem_map.mp (List.mem_mergeSort.mp (List.mem_eraseDups.mp listed))
    obtain ⟨before, row, after, shape, counted, inside⟩ := mem_numbered.mp member
    have hole : none ∈ row := exists_mem_holes.mp ⟨span, inside⟩
    dsimp only at found
    rw [counted, Nat.add_comm, hunk?_fill flat fits shape hole] at found
    exact ⟨before, row, after, shape, hole, (Option.some.inj found).symm⟩
  · rintro ⟨before, row, after, shape, hole, rfl⟩
    obtain ⟨span, member⟩ := exists_mem_holes.mpr hole
    have numbers : (before.length + 1, span) ∈ numbered old 1 0 (rows template) :=
      mem_numbered.mpr ⟨before, row, after, shape, Nat.add_comm before.length 1, member⟩
    exact ⟨before.length + 1, List.mem_eraseDups.mpr (List.mem_mergeSort.mpr (List.mem_map_of_mem numbers)),
      hunk?_fill flat fits shape hole⟩

end Template

namespace Diff

/-- In an ascending list, only the first of equal numbers is kept. -/
private theorem eraseDups_ascending (numbers : List Nat) (ordered : numbers.Pairwise (· ≤ ·)) :
    numbers.eraseDups.Pairwise (· < ·) := by
  induction counted : numbers.length using Nat.strongRecOn generalizing numbers with
  | ind count smaller =>
      cases numbers with
      | nil => exact List.Pairwise.nil
      | cons first rest =>
          obtain ⟨least, further⟩ := List.pairwise_cons.mp ordered
          have shorter : (rest.filter fun number => !number == first).length < count := by
            rw [← counted, List.length_cons]
            exact Nat.lt_succ_of_le (List.length_filter_le _ rest)
          rw [List.eraseDups_cons]
          refine List.pairwise_cons.mpr ⟨?_, smaller _ shorter _ (further.filter _) rfl⟩
          intro number member
          obtain ⟨listed, other⟩ := List.mem_filter.mp (List.mem_eraseDups.mp member)
          have different : number ≠ first := by simpa using other
          exact Nat.lt_of_le_of_ne (least number listed) (Ne.symm different)

/-- Hunks come in the order of their lines, one for a line. -/
theorem hunks_ascending (source : String) (edits : List Edit) :
    (hunks source edits).Pairwise fun left right => left.line < right.line := by
  have line {text : String} {lines : Lines} {number : Nat} {own : List Edit} {hunk : Hunk}
      (found : hunk? text lines number own = some hunk) : hunk.line = number := by
    unfold hunk? at found
    split at found
    · cases found
    · cases found
      rfl
  unfold hunks
  rw [List.pairwise_filterMap]
  refine (eraseDups_ascending _ ?_).imp ?_
  · exact (List.pairwise_mergeSort (by simp; omega) (by simp; omega) _).imp (by simp)
  · intro left right before leftHunk leftFound rightHunk rightFound
    rw [line leftFound, line rightFound]
    exact before

end Diff

/-! ### The template of a plan -/

namespace Token

/-- The text of the tokens with holes in the place of some of them. -/
def template (spans : List Span) (tokens : List Token) : List (Option Char) :=
  tokens.flatMap fun token => if token.span ∈ spans then [none] else token.text.toList.map some

theorem fill_template (word : String) (spans : List Span) (tokens : List Token) :
    fill word.toList (template spans tokens) =
      (String.join (tokens.map fun token => if token.span ∈ spans then word else token.text)).toList := by
  unfold template
  rw [fill_flatMap, String.toList_join, List.flatMap_map]
  apply List.flatMap_congr
  intro token _
  split
  · simp [fill]
  · simp

/-- The holes are the spans of the tokens left out. -/
theorem holes_template {word : String} {spans : List Span} (start : Nat) (lexemes : List Lexeme)
    (spelled : ∀ token ∈ layOut start lexemes, token.span ∈ spans → token.text = word) :
    holes word.toList start (template spans (layOut start lexemes)) =
      ((layOut start lexemes).filter (·.span ∈ spans)).map (·.span) := by
  induction lexemes generalizing start with
  | nil => rfl
  | cons lexeme rest ih =>
      have further := ih (start + lexeme.text.utf8ByteSize) fun token member =>
        spelled token (List.mem_cons_of_mem _ member)
      have first := spelled _ List.mem_cons_self
      rw [layOut]
      unfold template at further ⊢
      rw [List.flatMap_cons, List.filter_cons]
      by_cases chosen : (⟨start, start + lexeme.text.utf8ByteSize⟩ : Span) ∈ spans
      · have text : lexeme.text = word := first chosen
        simp only [chosen, if_true, decide_true, List.singleton_append, holes, List.map_cons, bytes_toList]
        rw [← text] at further ⊢
        rw [further]
      · simp only [chosen, if_false, decide_false, Bool.false_eq_true]
        rw [holes_append, holes_map_some, fill_map_some, bytes_toList, further]
        rfl

end Token

namespace RenamePlan

variable {plan : RenamePlan} {source : String} {tokens : List Token}

theorem Placed.text_of_mem (placed : plan.Placed tokens plan.spans) (tiled : Token.Tiled tokens) {token : Token}
    (member : token ∈ tokens) (chosen : token.span ∈ plan.spans) :
    token.text = plan.oldName ∧ token.isIdentifier = true := by
  obtain ⟨named, inside, same, identifier, text⟩ := placed.spelled _ chosen
  have equal := tiled.eq_of_span_eq inside member same
  rw [← equal]
  exact ⟨text, identifier⟩

/-- The planned spans are those of the planned tokens, in order. -/
theorem Placed.spans_eq (placed : plan.Placed tokens plan.spans) (tiled : Token.Tiled tokens) :
    (tokens.filter (·.span ∈ plan.spans)).map (·.span) = plan.spans := by
  have starts : ((tokens.filter (·.span ∈ plan.spans)).map (·.span)).Pairwise fun left right =>
      left.start < right.start := by
    rw [List.pairwise_map]
    refine (tiled.ordered.filter _).imp_of_mem ?_
    intro left right leftMember _ apart
    exact Nat.lt_of_lt_of_le (tiled.proper left (List.mem_of_mem_filter leftMember)) apart
  have members (span : Span) : span ∈ (tokens.filter (·.span ∈ plan.spans)).map (·.span) ↔ span ∈ plan.spans := by
    simp only [List.mem_map, List.mem_filter, decide_eq_true_eq]
    constructor
    · rintro ⟨token, ⟨_, chosen⟩, rfl⟩
      exact chosen
    · intro chosen
      obtain ⟨token, inside, rfl, _⟩ := placed.spelled span chosen
      exact ⟨token, ⟨inside, chosen⟩, rfl⟩
  have distinct {spans : List Span} (ordered : spans.Pairwise fun left right => left.start < right.start) :
      spans.Nodup := by
    refine ordered.imp ?_
    rintro left right before rfl
    exact Nat.lt_irrefl _ before
  refine List.Perm.eq_of_pairwise ?_ starts (placed.starts tiled) ?_
  · intro left right _ _ before after
    exact absurd before (Nat.not_lt.mpr (Nat.le_of_lt after))
  · exact (List.perm_ext_iff_of_nodup (distinct starts) (distinct (placed.starts tiled))).mpr members

structure Templated (plan : RenamePlan) (source text : String) (template : List (Option Char)) : Prop where
  source_eq : source = String.ofList (fill plan.oldName.toList template)
  text_eq : text = String.ofList (fill plan.newName.toList template)
  spans_eq : holes plan.oldName.toList 0 template = plan.spans
  flat : none ∈ template → '\n' ∉ plan.oldName.toList

theorem Fits.templated (split : Token.ofText source = .ok tokens) (fits : plan.Fits source tokens) :
    plan.Templated source (plan.rewritten tokens) (Token.template plan.spans tokens) := by
  have tiled := Token.ofText_tiled split
  have spelled (token : Token) (member : token ∈ tokens) (chosen : token.span ∈ plan.spans) :
      token.text = plan.oldName := (fits.2.text_of_mem tiled member chosen).1
  refine ⟨?_, ?_, ?_, ?_⟩
  · have texts : (tokens.map fun token => if token.span ∈ plan.spans then plan.oldName else token.text) =
        tokens.map (·.text) := by
      apply List.map_congr_left
      intro token member
      split
      · rename_i chosen
        exact (spelled token member chosen).symm
      · rfl
    rw [Token.fill_template, texts, Token.ofText_join split, String.ofList_toList]
  · rw [Token.fill_template, String.ofList_toList]
    rfl
  · obtain ⟨_, laid⟩ := Token.ofText_eq_ok split
    have holes := Token.holes_template 0 (Lexer.scan source.toList).lexemes (laid ▸ spelled)
    rw [← laid, fits.2.spans_eq tiled] at holes
    exact holes
  · intro hole newline
    obtain ⟨token, member, piece⟩ := List.mem_flatMap.mp hole
    split at piece
    · rename_i chosen
      obtain ⟨text, identifier⟩ := fits.2.text_of_mem tiled member chosen
      have part := Token.ofText_identifier_parts split member identifier '\n' (text ▸ newline)
      revert part
      decide
    · simp at piece

theorem Fits.edits_eq (split : Token.ofText source = .ok tokens) (fits : plan.Fits source tokens) (file : String) :
    plan.edits file source = .ok (plan.spans.map (Edit.ofSpan file source plan.oldName plan.newName)) := by
  unfold edits
  rw [checkFresh_eq_ok_iff.mpr fits.1]
  apply mapM_eq_ok_map
  intro span chosen
  obtain ⟨token, member, rfl, _, text⟩ := fits.2.spelled span chosen
  rw [(Token.ofText_covers split).slices token member, text]
  rfl

end RenamePlan

namespace Diff

def document (file : String) : List Hunk → String
  | [] => ""
  | hunks => "--- a/" ++ file ++ "\n+++ b/" ++ file ++ "\n" ++ String.join (hunks.map Hunk.render)

/-- The hunks show what a change at these spans makes of a text: they come in the order of their lines, there is one for
each line with a span, it holds that line before and after, and all other lines are equal. -/
structure Describes (hunks : List Hunk) (source text : String) (spans : List Span) : Prop where
  ascending : hunks.Pairwise fun left right => left.line < right.line
  within : ∀ span ∈ spans, ∃ line, OnLine source line span
  changed : ∀ line, (∃ hunk ∈ hunks, hunk.line = line + 1) ↔ ∃ span ∈ spans, OnLine source line span
  shown : ∀ hunk ∈ hunks, ∃ line, hunk.line = line + 1 ∧ (lines source)[line]? = some hunk.before ∧
    (lines text)[line]? = some hunk.after
  counted : (lines source).length = (lines text).length
  unchanged : ∀ line, (∀ hunk ∈ hunks, hunk.line ≠ line + 1) → (lines source)[line]? = (lines text)[line]?

theorem unified_eq_document {file source : String} {edits : List Edit} (own : ∀ edit ∈ edits, edit.file = file) :
    unified file source edits = document file (hunks source edits) := by
  have all : edits.filter (·.file == file) = edits := by
    rw [List.filter_eq_self]
    intro edit member
    exact beq_iff_eq.mpr (own edit member)
  unfold unified
  rw [all]
  rfl

/-- The hunks of edits at the holes of a template. -/
theorem describes_fill {old new : List Char} {template : List (Option Char)} (file : String)
    (flatOld : none ∈ template → '\n' ∉ old) (flatNew : none ∈ template → '\n' ∉ new)
    (fits : ∀ span ∈ holes old 0 template, span.start + 1 < 2 ^ 32) :
    Describes (hunks (String.ofList (fill old template)) (Template.edits file old new template))
      (String.ofList (fill old template)) (String.ofList (fill new template)) (holes old 0 template) := by
  have located (span : Span) (hole : span ∈ holes old 0 template) : ∃ before row after,
      rows template = before ++ row :: after ∧ none ∈ row ∧
        OnLine (String.ofList (fill old template)) before.length span := by
    obtain ⟨before, row, after, shape, inside⟩ := mem_holes_iff.mp hole
    exact ⟨before, row, after, shape, exists_mem_holes.mp ⟨span, inside⟩, onLine_of_hole flatOld shape inside⟩
  refine ⟨hunks_ascending _ _, ?_, ?_, ?_, ?_, ?_⟩
  · intro span hole
    obtain ⟨before, _, _, _, _, onLine⟩ := located span hole
    exact ⟨before.length, onLine⟩
  · intro line
    constructor
    · rintro ⟨hunk, listed, numbered⟩
      obtain ⟨before, row, after, shape, hole, rfl⟩ := (mem_hunks flatOld fits).mp listed
      obtain ⟨span, inside⟩ := exists_mem_holes.mpr hole
      have same : before.length = line := Nat.succ.inj numbered
      exact ⟨span, mem_holes_iff.mpr ⟨before, row, after, shape, inside⟩, same ▸ onLine_of_hole flatOld shape inside⟩
    · rintro ⟨span, hole, onLine⟩
      obtain ⟨before, row, after, shape, holeInRow, onRow⟩ := located span hole
      have proper : span.start ≤ span.stop := by
        have sized := (mem_holes hole).2.1
        omega
      have same := OnLine.unique proper onLine onRow
      exact ⟨_, (mem_hunks flatOld fits).mpr ⟨before, row, after, shape, holeInRow, rfl⟩, by rw [same]; rfl⟩
  · intro hunk listed
    obtain ⟨before, row, after, shape, _, rfl⟩ := (mem_hunks flatOld fits).mp listed
    exact ⟨before.length, rfl, line_fill flatOld shape, line_fill flatNew shape⟩
  · rw [lines_fill flatOld, lines_fill flatNew, List.length_map, List.length_map]
  · intro line untouched
    rw [lines_fill flatOld, lines_fill flatNew, List.getElem?_map, List.getElem?_map]
    cases found : (rows template)[line]? with
    | none => rfl
    | some row =>
        obtain ⟨inside, same⟩ := List.getElem?_eq_some_iff.mp found
        have shape : rows template = (rows template).take line ++ row :: (rows template).drop (line + 1) := by
          rw [← same, List.getElem_cons_drop, List.take_append_drop]
        have full : none ∉ row := by
          intro hole
          refine untouched _ ((mem_hunks flatOld fits).mpr ⟨_, row, _, shape, hole, rfl⟩) ?_
          rw [Template.changed, List.length_take, Nat.min_eq_left (Nat.le_of_lt inside)]
        rw [Option.map_some, Option.map_some, fill_eq_of_not_mem full old new]

end Diff

namespace Patch

theorem byteDelta_eq_summary (patch : Patch) :
    patch.byteDelta = (patch.summary.bytesAdded : Int) - patch.summary.bytesRemoved := by
  unfold byteDelta summary
  dsimp only
  induction patch.edits with
  | nil => rfl
  | cons edit rest ih =>
      simp only [List.foldr_cons, ih]
      omega

private theorem foldr_eq_mul {measure : Edit → Nat} {size : Nat} {edits : List Edit}
    (same : ∀ edit ∈ edits, measure edit = size) :
    edits.foldr (fun edit total => measure edit + total) 0 = edits.length * size := by
  induction edits with
  | nil => simp
  | cons edit rest ih =>
      rw [List.foldr_cons, ih fun other member => same other (List.mem_cons_of_mem _ member),
        same edit List.mem_cons_self, List.length_cons, Nat.succ_mul, Nat.add_comm]

theorem summary_ofSpan (file source oldText newText diff : String) (spans : List Span) :
    (Patch.mk (spans.map (Edit.ofSpan file source oldText newText)) diff).summary =
      ⟨UInt32.ofNat spans.length, spans.length * newText.utf8ByteSize, spans.length * oldText.utf8ByteSize⟩ := by
  have texts : ∀ edit ∈ spans.map (Edit.ofSpan file source oldText newText),
      edit.oldText = oldText ∧ edit.newText = newText := by
    intro edit member
    obtain ⟨span, _, rfl⟩ := List.mem_map.mp member
    exact ⟨rfl, rfl⟩
  unfold summary
  rw [foldr_eq_mul fun edit member => congrArg String.utf8ByteSize (texts edit member).2,
    foldr_eq_mul fun edit member => congrArg String.utf8ByteSize (texts edit member).1, List.length_map]

end Patch

namespace RenamePlan.Templated

variable {plan : RenamePlan} {source text : String} {template : List (Option Char)}
  (templated : plan.Templated source text template) (file : String)

include templated

theorem edits_eq : plan.spans.map (Edit.ofSpan file source plan.oldName plan.newName) =
    Template.edits file plan.oldName.toList plan.newName.toList template := by
  unfold Template.edits
  rw [templated.spans_eq, ← templated.source_eq, String.ofList_toList, String.ofList_toList]

theorem splice?_eq :
    (plan.spans.map (Edit.ofSpan file source plan.oldName plan.newName)).foldrM Edit.splice? source = some text := by
  have made := splice?_fill file plan.oldName.toList plan.newName.toList source [] template
  rw [bytes_nil, templated.spans_eq, List.nil_append, List.nil_append, ← templated.source_eq, ← templated.text_eq,
    String.ofList_toList, String.ofList_toList] at made
  exact made

theorem bytes_eq : text.utf8ByteSize + plan.spans.length * plan.oldName.utf8ByteSize =
    source.utf8ByteSize + plan.spans.length * plan.newName.utf8ByteSize := by
  have sizes := bytes_fill plan.oldName.toList plan.newName.toList 0 template
  rw [templated.spans_eq, bytes_toList, bytes_toList] at sizes
  rw [templated.text_eq, templated.source_eq]
  exact sizes

theorem stop_le {span : Span} (chosen : span ∈ plan.spans) : span.stop ≤ source.utf8ByteSize := by
  rw [← templated.spans_eq] at chosen
  have stops := (mem_holes chosen).2.2
  rw [Nat.zero_add] at stops
  rw [templated.source_eq]
  exact stops

variable (fits : ∀ span ∈ plan.spans, span.start + 1 < 2 ^ 32)

include fits

/-- An edit has the number of the line its span lies on, and the distance from the start of it. -/
theorem position_eq {span : Span} (chosen : span ∈ plan.spans) : ∃ line, OnLine source line span ∧
    (Lines.ofText source).position span.start = ⟨line + 1, span.start - lineStart source line + 1⟩ := by
  have short := fits span chosen
  rw [← templated.spans_eq] at chosen
  obtain ⟨before, row, after, shape, inside⟩ := mem_holes_iff.mp chosen
  rw [templated.source_eq]
  refine ⟨before.length, onLine_of_hole templated.flat shape inside, ?_⟩
  rw [position_of_hole templated.flat shape inside short, lineStart_fill templated.flat shape]

theorem describes (flat : '\n' ∉ plan.newName.toList) :
    Diff.Describes (Diff.hunks source (plan.spans.map (Edit.ofSpan file source plan.oldName plan.newName))) source text
      plan.spans := by
  have described := Diff.describes_fill file templated.flat (fun _ => flat) (templated.spans_eq ▸ fits)
  rw [← templated.edits_eq file, ← templated.source_eq, ← templated.text_eq, templated.spans_eq] at described
  exact described

end RenamePlan.Templated

end ScopedRename
