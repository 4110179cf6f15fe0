import Mathlib
import ScopedRename.Proofs.Files.Tree
import ScopedRename.Proofs.Plan.Patch

/-!
Renaming in every matching file below a directory. The files are read before any is written, and each is handled by
itself: it is reported without a change, or its new text is written to the path rebuilt from its label. Main statement:
on any host the report lists every matching file once, and a batch in place changes exactly the files it reports as
renamed, each to the text its own rename produces, if the labels of these spell their paths. Where no link leads to a
file, this is the only way: a label has slashes for backslashes and replacements for bytes that are no text, so a file
that is not spelled by its label stays as it is and its new text goes to another place.
-/

namespace ScopedRename

open FilePath (join isName ofNames)

variable {Tree Pattern Place Node : Type} {host : Host Tree Pattern} {files : host.Files Place Node}

/-! ### The files of a batch -/

namespace Host

variable {tree after : Tree} {root path : FilePath} {paths : List FilePath} {text : String} {includes : List String}

theorem readSource_eq_ok : host.readSource tree path = .ok text ↔ host.read tree path = .ok text := mapError_eq_ok

theorem selected?_eq_some {accepts : FilePath → Bool} {found : Option WalkEntry} :
    selected? root accepts found = some path ↔
      ∃ entry, found = some entry ∧ entry.isFile = true ∧ entry.path = path ∧
        (FilePath.below? root path).any accepts = true := by
  cases found with
  | none => simp [selected?]
  | some entry =>
      simp only [selected?, Option.ite_none_right_eq_some, Bool.and_eq_true, Option.some.injEq, exists_eq_left']
      constructor
      · rintro ⟨⟨regular, accepted⟩, rfl⟩
        exact ⟨regular, rfl, accepted⟩
      · rintro ⟨regular, rfl, accepted⟩
        exact ⟨⟨regular, accepted⟩, rfl⟩

theorem collect_eq_ok :
    host.collect tree root includes = .ok paths ↔
      host.isDirectory tree root = true ∧ ∃ accepts, host.selection includes = .ok accepts ∧
        ((host.walk tree root).filterMap (selected? root accepts)).mergeSort FilePath.le = paths := by
  unfold collect
  simp only [check_eq_ok, bind_eq_ok]
  constructor
  · rintro ⟨present, accepts, chosen, same⟩
    cases same
    exact ⟨by simpa using present, accepts, chosen, rfl⟩
  · rintro ⟨present, accepts, chosen, rfl⟩
    exact ⟨by simpa using present, accepts, chosen, rfl⟩

variable (files) in
structure Lists (tree : Tree) (root : FilePath) (paths : List FilePath) : Prop where
  regular : ∀ path ∈ paths, ∃ below place content, (∀ name ∈ below, isName name = true) ∧
    path = join root (ofNames below) ∧ files.leads tree path = some place ∧
    files.node? tree place = some (files.file content)
  distinct : paths.Pairwise fun first second => files.leads tree first ≠ files.leads tree second

variable (files) in
theorem collect_lists (collected : host.collect tree root includes = .ok paths) :
    Lists files tree root paths ∧ ∃ accepts, host.selection includes = .ok accepts ∧
      ∀ path, path ∈ paths ↔ ∃ entry, some entry ∈ host.walk tree root ∧ entry.isFile = true ∧ entry.path = path ∧
        (FilePath.below? root path).any accepts = true := by
  obtain ⟨present, accepts, chosen, rfl⟩ := collect_eq_ok.mp collected
  have listed (path : FilePath) :
      path ∈ ((host.walk tree root).filterMap (selected? root accepts)).mergeSort FilePath.le ↔
        ∃ entry, some entry ∈ host.walk tree root ∧ entry.isFile = true ∧ entry.path = path ∧
          (FilePath.below? root path).any accepts = true := by
    rw [List.mem_mergeSort, List.mem_filterMap]
    constructor
    · rintro ⟨found, member, taken⟩
      obtain ⟨entry, rfl, rest⟩ := selected?_eq_some.mp taken
      exact ⟨entry, member, rest⟩
    · rintro ⟨entry, member, rest⟩
      exact ⟨some entry, member, selected?_eq_some.mpr ⟨entry, rfl, rest⟩⟩
  refine ⟨⟨?_, ?_⟩, accepts, chosen, listed⟩
  · intro path member
    obtain ⟨entry, found, regular, rfl, -⟩ := (listed path).mp member
    exact files.walk_file present found regular
  · refine (List.mergeSort_perm _ _).symm.pairwise ?_ fun apart => Ne.symm apart
    rw [List.pairwise_filterMap]
    refine (files.walk_once present).imp ?_
    intro first second apart left leftTaken right rightTaken
    obtain ⟨one, rfl, regular, rfl, -⟩ := selected?_eq_some.mp leftTaken
    obtain ⟨other, rfl, alsoRegular, rfl, -⟩ := selected?_eq_some.mp rightTaken
    exact apart one other rfl rfl regular alsoRegular

theorem Lists.reads (lists : Lists files tree root paths) (member : path ∈ paths)
    (read : host.readSource tree path = .ok text) :
    ∃ place, files.leads tree path = some place ∧ files.node? tree place = some (files.file (.text text)) := by
  obtain ⟨_, place, content, _, _, led, stands⟩ := lists.regular path member
  have same := files.read_ok led stands (readSource_eq_ok.mp read)
  exact ⟨place, led, same ▸ stands⟩

end Host

namespace Command

open Host (Lists)

/-! ### Labels -/

/-- The path below the root is a text without a backslash. -/
def Spelled (root path : FilePath) : Prop :=
  ∃ text : String, FilePath.below? root path = some (.ofText text) ∧ '\\' ∉ text.toList

variable {root path : FilePath}

theorem not_mem_label (root path : FilePath) : '\\' ∉ (label root path).toList := by
  unfold label
  rw [String.toList_ofList, List.mem_map]
  rintro ⟨c, _, same⟩
  split at same
  · cases same
  · rename_i other
    exact other (beq_iff_eq.mpr same)

theorem label_eq {text : String} (below : FilePath.below? root path = some (.ofText text))
    (plain : '\\' ∉ text.toList) : label root path = text := by
  have shown : FilePath.display (FilePath.ofText text) = text := Text.decode_encode text
  unfold label
  rw [below, Option.getD_some, shown, ← String.toList_inj, String.toList_ofList]
  refine (List.map_congr_left ?_).trans (List.map_id _)
  intro c member
  have other : c ≠ '\\' := fun same => plain (same ▸ member)
  simp [other]

/-- A label that spells the path of a file leads to it. -/
theorem Spelled.join_label (spelled : Spelled root path) {below : List FilePath}
    (proper : ∀ name ∈ below, isName name = true) (same : path = join root (ofNames below)) :
    join root (.ofText (label root path)) = path := by
  obtain ⟨text, cut, plain⟩ := spelled
  have written : ofNames below = .ofText text := by
    rw [same, FilePath.below?_join root proper] at cut
    exact Option.some.inj cut
  rw [label_eq cut plain, ← written, same]

theorem mem_intercalate {c : Char} {pieces : List (List Char)} (member : c ∈ ['/'].intercalate pieces) :
    c = '/' ∨ ∃ piece ∈ pieces, c ∈ piece := by
  induction pieces with
  | nil => cases member
  | cons first rest ih =>
      cases rest with
      | nil =>
          rw [List.intercalate_singleton] at member
          exact Or.inr ⟨first, List.mem_cons_self, member⟩
      | cons second rest =>
          rw [List.intercalate_cons_cons, List.mem_append, List.mem_append] at member
          rcases member with (inside | slash) | later
          · exact Or.inr ⟨first, List.mem_cons_self, inside⟩
          · exact Or.inl (List.mem_singleton.mp slash)
          · refine (ih later).imp_right ?_
            rintro ⟨piece, listed, inside⟩
            exact ⟨piece, List.mem_cons_of_mem _ listed, inside⟩

/-- A byte that starts no character is shown as a replacement, so the label names another file. -/
example : label (.ofText ".") (join (.ofText ".") (0xFF :: FilePath.ofText ".java")) = "\uFFFD.java" := by
  decide +kernel

/-- A path whose names all stand in a text without backslashes is one itself. -/
theorem spelled_of_parts {below : List FilePath} (proper : ∀ name ∈ below, isName name = true) {text : String}
    (plain : '\\' ∉ text.toList) (among : ∀ name ∈ below, name ∈ FilePath.parts (.ofText text)) :
    Spelled root (join root (ofNames below)) := by
  have pieces : ∃ pieces : List (List Char), below = pieces.map Text.utf8 ∧
      ∀ piece ∈ pieces, ∀ c ∈ piece, c ∈ text.toList := by
    clear proper
    induction below with
    | nil => exact ⟨[], rfl, fun _ member => absurd member List.not_mem_nil⟩
    | cons first rest ih =>
        obtain ⟨later, same, inside⟩ := ih fun name member => among name (List.mem_cons_of_mem _ member)
        have part := among first List.mem_cons_self
        rw [FilePath.ofText, Text.encode_eq] at part
        obtain ⟨piece, rfl, fine⟩ := FilePath.exists_text_of_mem_parts part
        refine ⟨piece :: later, by rw [same, List.map_cons], ?_⟩
        intro chars member
        rcases List.mem_cons.mp member with rfl | further
        · exact fine
        · exact inside chars further
  obtain ⟨pieces, rfl, inside⟩ := pieces
  refine ⟨String.ofList (['/'].intercalate pieces), ?_, ?_⟩
  · rw [FilePath.below?_join root proper, FilePath.ofNames_utf8, FilePath.ofText, Text.encode_eq, String.toList_ofList]
  · rw [String.toList_ofList]
    intro member
    rcases mem_intercalate member with slash | ⟨piece, listed, among⟩
    · cases slash
    · exact plain (inside piece listed _ among)

/-! ### What becomes of a file -/

def BatchRequest.attempt (request : BatchRequest) (options : RenameOptions) (source : String) :
    Except RenameError RenameOutcome :=
  RenameContext.run { options } source request.locator request.newName

theorem exists_summary {outcome : FileOutcome} (renamed : outcome.isRenamed = true) :
    ∃ summary, outcome = .renamed summary := by
  cases outcome with
  | renamed summary => exact ⟨summary, rfl⟩
  | unchanged => cases renamed
  | skipped => cases renamed
  | failed => cases renamed

inductive Reports (attempt : String → Except RenameError RenameOutcome) (label : String) :
    Except Failure String → FileOutcome → Prop where
  | unread (failure : Failure) : Reports attempt label (.error failure) (.failed failure)
  | absent {source : String} {error : RenameError} (refused : attempt source = .error error)
      (notFound : error.isNotFound = true) : Reports attempt label (.ok source) .skipped
  | refused {source : String} {error : RenameError} (refused : attempt source = .error error)
      (found : error.isNotFound = false) : Reports attempt label (.ok source) (.failed (.ofError error))
  | unchanged {source : String} {result : RenameOutcome} (renamed : attempt source = .ok result)
      (same : result.text = source) : Reports attempt label (.ok source) .unchanged
  | renamed {source : String} {result : RenameOutcome} {patch : Patch} (renamed : attempt source = .ok result)
      (changed : result.text ≠ source) (patched : result.plan.patch label source = .ok patch) :
      Reports attempt label (.ok source) (.renamed patch.summary)

theorem Reports.changes {attempt : String → Except RenameError RenameOutcome} {label : String}
    {read : Except Failure String} {outcome : FileOutcome} (reports : Reports attempt label read outcome)
    (renamed : outcome.isRenamed = true) :
    ∃ source result, read = .ok source ∧ attempt source = .ok result ∧ result.text ≠ source := by
  cases reports with
  | renamed attempted changed _ => exact ⟨_, _, rfl, attempted, changed⟩
  | unread => cases renamed
  | absent => cases renamed
  | refused => cases renamed
  | unchanged => cases renamed

theorem Reports.isRenamed {attempt : String → Except RenameError RenameOutcome} {label source : String}
    {outcome : FileOutcome} {result : RenameOutcome} (reports : Reports attempt label (.ok source) outcome)
    (attempted : attempt source = .ok result) (changed : result.text ≠ source) : outcome.isRenamed = true := by
  cases reports with
  | absent refused => cases refused.symm.trans attempted
  | refused refused => cases refused.symm.trans attempted
  | unchanged renamed same =>
      cases renamed.symm.trans attempted
      exact absurd same changed
  | renamed => rfl

theorem Reports.eq_skipped {attempt : String → Except RenameError RenameOutcome} {label source : String}
    {outcome : FileOutcome} {error : RenameError} (reports : Reports attempt label (.ok source) outcome)
    (refused : attempt source = .error error) (notFound : error.isNotFound = true) : outcome = .skipped := by
  cases reports with
  | absent => rfl
  | refused again found =>
      cases again.symm.trans refused
      cases found.symm.trans notFound
  | unchanged renamed => cases renamed.symm.trans refused
  | renamed renamed => cases renamed.symm.trans refused

structure BatchEntry where
  path : FilePath
  outcome : FileOutcome

def BatchEntry.report (root : FilePath) (entry : BatchEntry) : FileReport := ⟨label root entry.path, entry.outcome⟩

section Steps

variable (host) (tree : Tree) (root : FilePath) (request : BatchRequest) (options : RenameOptions)

def Blocked (current : Tree) (path : FilePath) (outcome : FileOutcome) : Prop :=
  request.inPlace = true ∧ ∃ source result trouble, host.readSource tree path = .ok source ∧
    request.attempt options source = .ok result ∧ result.text ≠ source ∧
    host.replace current (join root (.ofText (label root path))) result.text = .error trouble ∧
    outcome = .failed (Host.writeFailure (join root (.ofText (label root path))) trouble)

/-- What a batch does with one file: it reports the file as it is, or writes the new text to the path of the label, or
finds that it cannot be written there. -/
inductive Handles (current : Tree) (path : FilePath) : FileOutcome → Tree → Prop where
  | reported {outcome : FileOutcome}
      (reports : Reports (request.attempt options) (label root path) (host.readSource tree path) outcome)
      (kept : request.inPlace = true → outcome.isRenamed = false) : Handles current path outcome current
  | written {source : String} {result : RenameOutcome} {outcome : FileOutcome} {next : Tree}
      (inPlace : request.inPlace = true) (read : host.readSource tree path = .ok source)
      (renamed : request.attempt options source = .ok result)
      (reports : Reports (request.attempt options) (label root path) (.ok source) outcome)
      (changed : outcome.isRenamed = true)
      (wrote : host.replace current (join root (.ofText (label root path))) result.text = .ok next) :
      Handles current path outcome next
  | unwritten {outcome : FileOutcome} (blocked : Blocked host tree root request options current path outcome) :
      Handles current path outcome current

inductive Runs : Tree → List FilePath → List BatchEntry → Tree → Prop where
  | done (current : Tree) : Runs current [] [] current
  | next {current between after : Tree} {path : FilePath} {outcome : FileOutcome} {paths : List FilePath}
      {entries : List BatchEntry} (step : Handles host tree root request options current path outcome between)
      (rest : Runs between paths entries after) : Runs current (path :: paths) (⟨path, outcome⟩ :: entries) after

variable {host tree root request options} {current next after : Tree} {paths : List FilePath}
  {entries : List BatchEntry}

theorem settle_handles {source : String} (read : host.readSource tree path = .ok source) {outcome : FileOutcome}
    (settled : settle host root request.inPlace current
      ⟨⟨label root path, source, request.locator, request.newName⟩, request.attempt options source⟩ =
        (outcome, next)) :
    Handles host tree root request options current path outcome next := by
  unfold settle at settled
  dsimp only at settled
  cases renamed : request.attempt options source with
  | error error =>
      rw [renamed] at settled
      cases settled
      refine .reported ?_ ?_
      · rw [read]
        cases found : error.isNotFound with
        | true => exact .absent renamed found
        | false => exact .refused renamed found
      · intro _
        split <;> rfl
  | ok result =>
      rw [renamed] at settled
      dsimp only at settled
      by_cases unchanged : result.text = source
      · rw [if_pos (beq_iff_eq.mpr unchanged)] at settled
        cases settled
        exact .reported (read ▸ .unchanged renamed unchanged) fun _ => rfl
      · obtain ⟨patch, patched⟩ := RenameContext.exists_patch renamed (label root path)
        have reports : Reports (request.attempt options) (label root path) (.ok source) (.renamed patch.summary) :=
          .renamed renamed unchanged patched
        rw [if_neg (mt beq_iff_eq.mp unchanged), patched] at settled
        dsimp only [Except.mapError] at settled
        cases inPlace : request.inPlace with
        | false =>
            rw [inPlace] at settled
            cases settled
            refine .reported (read ▸ reports) fun placed => ?_
            cases inPlace.symm.trans placed
        -- written in place: the tree changes only if the write succeeds
        | true =>
            rw [inPlace, if_pos rfl] at settled
            unfold Host.writeSource at settled
            cases wrote : host.replace current (join root (.ofText (label root path))) result.text with
            | ok after =>
                rw [wrote] at settled
                cases settled
                exact .written inPlace read renamed reports rfl wrote
            | error trouble =>
                rw [wrote] at settled
                cases settled
                exact .unwritten ⟨inPlace, source, result, trouble, read, renamed, unchanged, wrote, rfl⟩

theorem settleAll_cons {inPlace : Bool} {job : JobOutcome} {rest : List JobOutcome} {outcome : FileOutcome}
    {reports : List FileReport} (done : settle host root inPlace current job = (outcome, next))
    (ran : settleAll host root inPlace next rest = (reports, after)) :
    settleAll host root inPlace current (job :: rest) = (⟨job.job.label, outcome⟩ :: reports, after) := by
  rw [settleAll, done]
  dsimp only
  rw [ran]

variable (host tree root request options) in
/-- Settling the files that were read and reporting the others handles each file once. -/
theorem settleAll_runs (paths : List FilePath) (current : Tree) :
    let sources := paths.map fun path => (label root path, host.readSource tree path)
    ∃ settled entries after,
      settleAll host root request.inPlace current
          (RenameContext.runAll { options } (sources.filterMap (job? request))) = (settled, after) ∧
      Runs host tree root request options current paths entries after ∧
      (settled ++ sources.filterMap unread?).Perm (entries.map (BatchEntry.report root)) := by
  induction paths generalizing current with
  | nil => exact ⟨[], [], current, rfl, .done current, .nil⟩
  | cons path paths ih =>
      cases read : host.readSource tree path with
      | error failure =>
          obtain ⟨settled, entries, after, ran, runs, listed⟩ := ih current
          have step : Handles host tree root request options current path (.failed failure) current :=
            .reported (read ▸ .unread failure) fun _ => rfl
          refine ⟨settled, _, after, ?_, .next step runs, ?_⟩
          · rw [List.map_cons, read]
            exact ran
          · rw [List.map_cons, read]
            exact List.perm_middle.trans (listed.cons _)
      | ok source =>
          cases done : settle host root request.inPlace current
              ⟨⟨label root path, source, request.locator, request.newName⟩, request.attempt options source⟩ with
          | mk outcome between =>
              have step : Handles host tree root request options current path outcome between :=
                settle_handles read done
              obtain ⟨settled, entries, after, ran, runs, listed⟩ := ih between
              refine ⟨⟨label root path, outcome⟩ :: settled, _, after, ?_, .next step runs, ?_⟩
              · rw [List.map_cons, read]
                exact settleAll_cons done ran
              · rw [List.map_cons, read]
                exact listed.cons _

/-! ### What a run keeps -/

theorem Runs.map_path (runs : Runs host tree root request options current paths entries after) :
    entries.map (·.path) = paths := by
  induction runs with
  | done => rfl
  | next _ _ ih => rw [List.map_cons, ih]

/-- A batch that writes nothing in place keeps the tree. -/
theorem Runs.eq_of_not_inPlace (runs : Runs host tree root request options current paths entries after)
    (aside : request.inPlace = false) : after = current := by
  induction runs with
  | done => rfl
  | next step _ ih =>
      rw [ih]
      cases step with
      | reported => rfl
      | written inPlace => cases aside.symm.trans inPlace
      | unwritten => rfl

theorem Runs.concat {earlier : List FilePath} {handled : List BatchEntry} {outcome : FileOutcome} {start : Tree}
    (runs : Runs host tree root request options start earlier handled current)
    (step : Handles host tree root request options current path outcome next) :
    Runs host tree root request options start (earlier ++ [path]) (handled ++ [⟨path, outcome⟩]) next := by
  induction runs with
  | done => exact .next step (.done next)
  | next first _ ih => exact .next first (ih step)

def Meets (host : Host Tree Pattern) (tree : Tree) (root : FilePath) (request : BatchRequest) (options : RenameOptions)
    (paths : List FilePath) (path : FilePath) (current : Tree) : Prop :=
  ∃ earlier handled, earlier ++ [path] <+: paths ∧ Runs host tree root request options tree earlier handled current

theorem Runs.handled {earlier : List FilePath} {handled : List BatchEntry}
    (before : Runs host tree root request options tree earlier handled current)
    (runs : Runs host tree root request options current paths entries after) {entry : BatchEntry}
    (member : entry ∈ entries) :
    ∃ reached next, Meets host tree root request options (earlier ++ paths) entry.path reached ∧
      Handles host tree root request options reached entry.path entry.outcome next := by
  induction runs generalizing earlier handled with
  | done => cases member
  | @next current between after path outcome paths entries step _ ih =>
      rcases List.mem_cons.mp member with rfl | later
      · refine ⟨current, between, ⟨earlier, handled, ?_, before⟩, step⟩
        exact ⟨paths, by rw [List.append_assoc, List.singleton_append]⟩
      · have further := ih (before.concat step) later
        rwa [List.append_assoc, List.singleton_append] at further

/-- Every file is reported by its own text alone, unless it could not be written. -/
theorem Runs.reports (runs : Runs host tree root request options tree paths entries after) {entry : BatchEntry}
    (member : entry ∈ entries) :
    Reports (request.attempt options) (label root entry.path) (host.readSource tree entry.path) entry.outcome ∨
      ∃ current, Meets host tree root request options paths entry.path current ∧
        Blocked host tree root request options current entry.path entry.outcome := by
  obtain ⟨current, _, meets, step⟩ := Runs.handled (.done tree) runs member
  generalize entry.outcome = outcome at step
  cases step with
  | reported reports => exact Or.inl reports
  | written _ read _ reports => exact Or.inl (read ▸ reports)
  | unwritten blocked => exact Or.inr ⟨current, meets, blocked⟩

theorem Runs.changes (runs : Runs host tree root request options tree paths entries after) {entry : BatchEntry}
    (member : entry ∈ entries) (renamed : entry.outcome.isRenamed = true) :
    ∃ source result, host.readSource tree entry.path = .ok source ∧ request.attempt options source = .ok result ∧
      result.text ≠ source := by
  rcases runs.reports member with reports | ⟨_, _, _, _, _, _, _, _, _, _, failed⟩
  · exact reports.changes renamed
  · rw [failed] at renamed
    cases renamed

/-- Files that no rename succeeds in leave the tree as it is. -/
theorem Runs.eq_of_refused (runs : Runs host tree root request options current paths entries after)
    (refused : ∀ path ∈ paths, ∀ source result, host.readSource tree path = .ok source →
      request.attempt options source ≠ .ok result) : after = current := by
  induction runs with
  | done => rfl
  | next step _ ih =>
      rw [ih fun later member => refused later (List.mem_cons_of_mem _ member)]
      cases step with
      | reported => rfl
      | written _ read renamed => exact absurd renamed (refused _ List.mem_cons_self _ _ read)
      | unwritten => rfl

/-- No path leads to a place that it does not lead to in another tree. -/
def From (files : host.Files Place Node) (tree current : Tree) : Prop :=
  ∀ asked place, files.leads current asked = some place → files.leads tree asked = some place

theorem Handles.comes {outcome : FileOutcome}
    (step : Handles host tree root request options current path outcome next) (comes : From files tree current) :
    From files tree next := by
  cases step with
  | reported => exact comes
  | written _ _ _ _ _ wrote => exact fun asked place led => comes asked place (files.leads_after wrote led)
  | unwritten => exact comes

/-- A place that the label of no renamed file leads to keeps what it holds. -/
theorem Runs.kept (runs : Runs host tree root request options current paths entries after)
    (comes : From files tree current) {place : Place}
    (apart : ∀ entry ∈ entries, entry.outcome.isRenamed = true →
      files.leads tree (join root (.ofText (label root entry.path))) ≠ some place) :
    files.node? after place = files.node? current place := by
  induction runs with
  | done => rfl
  | next step _ ih =>
      rw [ih (step.comes comes) fun entry member => apart entry (List.mem_cons_of_mem _ member)]
      cases step with
      | reported => rfl
      | written _ _ _ _ changed wrote =>
          obtain ⟨filled, led, _, others⟩ := files.replace_ok wrote
          apply others
          rintro rfl
          exact apart _ List.mem_cons_self changed (comes _ _ led)
      | unwritten => rfl

/-! ### What a batch in place touches -/

/-- Each file reported as renamed holds the text that the rename of its own text produces, and every other place holds
what it held. -/
structure Touches (files : host.Files Place Node) (before after : Tree)
    (attempt : String → Except RenameError RenameOutcome) (entries : List BatchEntry) : Prop where
  renamed : ∀ entry ∈ entries, entry.outcome.isRenamed = true → ∃ place source result,
    files.leads before entry.path = some place ∧ files.node? before place = some (files.file (.text source)) ∧
      attempt source = .ok result ∧ files.node? after place = some (files.file (.text result.text))
  others : ∀ place, (∀ entry ∈ entries, entry.outcome.isRenamed = true → files.leads before entry.path ≠ some place) →
    files.node? after place = files.node? before place

section InPlace

variable (lists : Lists files tree root paths)

include lists

theorem leads_label (member : path ∈ paths) (spelled : Spelled root path) :
    join root (.ofText (label root path)) = path := by
  obtain ⟨_, _, _, proper, same, _⟩ := lists.regular path member
  exact spelled.join_label proper same

/-- Without links, no label leads to a file whose own label does not spell its path. -/
theorem not_leads_label (unlinked : files.Unlinked tree root) (member : path ∈ paths) (astray : ¬Spelled root path)
    (other : FilePath) {place : Place} (here : files.leads tree path = some place) :
    files.leads tree (join root (.ofText (label root other))) ≠ some place := by
  intro led
  obtain ⟨below, _, _, proper, rfl, _⟩ := lists.regular path member
  exact astray (spelled_of_parts proper (not_mem_label root other) (unlinked below _ place proper here led))

variable (inPlace : request.inPlace = true)

include inPlace

/-- Each renamed file is written once if the labels spell the paths, and no other file is written over it. -/
theorem Runs.renamed {rest : List FilePath} (runs : Runs host tree root request options current rest entries after)
    (comes : From files tree current) (within : ∀ path ∈ rest, path ∈ paths)
    (distinct : rest.Pairwise fun first second => files.leads tree first ≠ files.leads tree second)
    (spelled : ∀ entry ∈ entries, entry.outcome.isRenamed = true → Spelled root entry.path)
    {entry : BatchEntry} (member : entry ∈ entries) (renamed : entry.outcome.isRenamed = true) :
    ∃ place source result, files.leads tree entry.path = some place ∧
      files.node? tree place = some (files.file (.text source)) ∧ request.attempt options source = .ok result ∧
      files.node? after place = some (files.file (.text result.text)) := by
  induction runs with
  | done => cases member
  | @next current between after path outcome rest entries step further ih =>
      have withinRest (later : FilePath) (inside : later ∈ rest) : later ∈ paths :=
        within later (List.mem_cons_of_mem _ inside)
      have spelledRest (later : BatchEntry) (inside : later ∈ entries) := spelled later (List.mem_cons_of_mem _ inside)
      obtain ⟨apart, distinctRest⟩ := List.pairwise_cons.mp distinct
      rcases List.mem_cons.mp member with rfl | inside
      · have listed : path ∈ paths := within path List.mem_cons_self
        have rebuilt := leads_label lists listed (spelled _ member renamed)
        cases step with
        | reported _ unchanged => cases (unchanged inPlace).symm.trans renamed
        | @written source result _ _ _ read attempted _ _ wrote =>
            obtain ⟨place, led, stands⟩ := lists.reads listed read
            obtain ⟨filled, reached, now, _⟩ := files.replace_ok wrote
            rw [rebuilt] at reached
            cases (comes _ _ reached).symm.trans led
            refine ⟨place, source, result, led, stands, attempted, ?_⟩
            -- a later file stands at another place, so its label does not lead here
            rw [further.kept (Handles.comes (.written inPlace read attempted ‹_› renamed wrote) comes), now]
            intro later laterInside laterRenamed leads
            have laterListed : later.path ∈ rest := further.map_path ▸ List.mem_map_of_mem laterInside
            rw [leads_label lists (withinRest _ laterListed) (spelledRest later laterInside laterRenamed)] at leads
            exact apart _ laterListed (led.trans leads.symm)
        | unwritten blocked =>
            obtain ⟨_, _, _, _, _, _, _, _, rfl⟩ := blocked
            cases renamed
      · exact ih (step.comes comes) withinRest distinctRest spelledRest inside

theorem Runs.touches (runs : Runs host tree root request options tree paths entries after)
    (spelled : ∀ entry ∈ entries, entry.outcome.isRenamed = true → Spelled root entry.path) :
    Touches files tree after (request.attempt options) entries where
  renamed entry member renamed :=
    runs.renamed lists inPlace (fun _ _ led => led) (fun _ inside => inside) lists.distinct spelled member renamed
  others place apart := by
    apply runs.kept fun _ _ led => led
    intro entry member renamed
    rw [leads_label lists (runs.map_path ▸ List.mem_map_of_mem member) (spelled entry member renamed)]
    exact apart entry member renamed

omit inPlace in
theorem Runs.spelled (runs : Runs host tree root request options tree paths entries after)
    (unlinked : files.Unlinked tree root) (touches : Touches files tree after (request.attempt options) entries)
    {entry : BatchEntry} (member : entry ∈ entries) (renamed : entry.outcome.isRenamed = true) :
    Spelled root entry.path := by
  by_contra astray
  have listed : entry.path ∈ paths := runs.map_path ▸ List.mem_map_of_mem member
  obtain ⟨source, result, read, attempted, changed⟩ := runs.changes member renamed
  obtain ⟨place, led, stands⟩ := lists.reads listed read
  have kept : files.node? after place = files.node? tree place :=
    runs.kept (fun _ _ led => led) fun other _ _ => not_leads_label lists unlinked listed astray other.path led
  obtain ⟨here, held, produced, there, before, again, now⟩ := touches.renamed entry member renamed
  cases there.symm.trans led
  cases files.file_injective (Option.some.inj (before.symm.trans stands))
  cases again.symm.trans attempted
  rw [kept, stands] at now
  cases files.file_injective (Option.some.inj now)
  exact changed rfl

end InPlace

end Steps

/-! ### The report -/

/-- The report lists the files by their labels, in order, and counts in 32 bits what became of them. -/
structure Summarizes (root : FilePath) (report : BatchReport) (entries : List BatchEntry) : Prop where
  files : report.files.Perm (entries.map (BatchEntry.report root))
  sorted : report.files.Pairwise fun left right => left.file ≤ right.file
  renamed : report.renamed = UInt32.ofNat (entries.countP (·.outcome.isRenamed))
  skipped : report.skipped = UInt32.ofNat (entries.countP (·.outcome.isSkipped))
  failed : report.failed = UInt32.ofNat (entries.countP (·.outcome.isFailed))
  status : report.status = if report.failed = 0 then "ok" else "partial"

structure Counts (report : BatchReport) (entries : List BatchEntry) : Prop where
  renamed : report.renamed.toNat = entries.countP (·.outcome.isRenamed)
  skipped : report.skipped.toNat = entries.countP (·.outcome.isSkipped)
  failed : report.failed.toNat = entries.countP (·.outcome.isFailed)
  partly : report.status = "partial" ↔ ∃ entry ∈ entries, entry.outcome.isFailed = true
  wholly : report.status = "ok" ↔ ∀ entry ∈ entries, entry.outcome.isFailed = false

theorem count_of_perm {report : BatchReport} {entries : List BatchEntry}
    (listed : report.files.Perm (entries.map (BatchEntry.report root))) (test : FileOutcome → Bool) :
    report.count test = UInt32.ofNat (entries.countP (test ·.outcome)) := by
  unfold BatchReport.count
  rw [← List.countP_eq_length_filter, listed.countP_eq, List.countP_map]
  rfl

theorem summarizes_sorted {reports : List FileReport} {entries : List BatchEntry}
    (listed : reports.Perm (entries.map (BatchEntry.report root))) :
    Summarizes root ⟨reports.mergeSort fun left right => left.file ≤ right.file⟩ entries := by
  have files := (List.mergeSort_perm reports fun left right => left.file ≤ right.file).trans listed
  have sorted : (reports.mergeSort fun left right => left.file ≤ right.file).Pairwise
      fun left right => left.file ≤ right.file := by
    refine (List.pairwise_mergeSort ?_ ?_ reports).imp of_decide_eq_true
    · intro first second third before after
      exact decide_eq_true (String.le_trans (of_decide_eq_true before) (of_decide_eq_true after))
    · intro left right
      simpa using String.le_total left.file right.file
  exact ⟨files, sorted, count_of_perm files _, count_of_perm files _, count_of_perm files _, rfl⟩

/-- Fewer files than 32 bits can count are counted exactly. -/
theorem Summarizes.counts {report : BatchReport} {entries : List BatchEntry}
    (summarizes : Summarizes root report entries)
    (few : entries.length < 2 ^ 32) : Counts report entries := by
  have fits (test : FileOutcome → Bool) :
      (UInt32.ofNat (entries.countP (test ·.outcome))).toNat = entries.countP (test ·.outcome) :=
    UInt32.toNat_ofNat_of_lt' (lt_of_le_of_lt List.countP_le_length few)
  have failed : report.failed.toNat = entries.countP (·.outcome.isFailed) := by
    rw [summarizes.failed]
    exact fits FileOutcome.isFailed
  have none : report.failed = 0 ↔ ∀ entry ∈ entries, entry.outcome.isFailed = false := by
    rw [← UInt32.toNat_inj, failed]
    simp [List.countP_eq_zero]
  have renamed : report.renamed.toNat = entries.countP (·.outcome.isRenamed) := by
    rw [summarizes.renamed]
    exact fits FileOutcome.isRenamed
  have skipped : report.skipped.toNat = entries.countP (·.outcome.isSkipped) := by
    rw [summarizes.skipped]
    exact fits FileOutcome.isSkipped
  refine ⟨renamed, skipped, failed, ?_, ?_⟩
  · rw [summarizes.status]
    split
    · rename_i zero
      simpa using none.mp zero
    · rename_i some
      simpa using mt none.mpr some
  · rw [summarizes.status]
    split
    · rename_i zero
      simpa using none.mp zero
    · rename_i some
      simpa using mt none.mpr some

/-- A batch over the files it collects handles each of them and reports all. -/
theorem batch_runs (host : Host Tree Pattern) (tree : Tree) (root : FilePath) (request : BatchRequest)
    (options : RenameOptions) {paths : List FilePath}
    (collected : host.collect tree root request.includes = .ok paths) :
    ∃ report entries after, batch host tree root request options = .ok (report, after) ∧
      Runs host tree root request options tree paths entries after ∧ Summarizes root report entries := by
  obtain ⟨settled, entries, after, ran, runs, listed⟩ := settleAll_runs host tree root request options paths tree
  refine ⟨_, entries, after, ?_, runs, summarizes_sorted listed⟩
  unfold batch
  rw [collected]
  dsimp only [bind, Except.bind]
  rw [ran]
  rfl

end Command

open Command in
/-- On every host, a batch over the files it collects lists each of them once, by its label, and reports it by its own
text alone, unless its new text could not be written. When nothing is written in place, the tree stays. Otherwise the
files reported as renamed hold what the rename of their own text produces and every other place holds what it held, if
the paths of the renamed files are texts without backslashes; where no links lead to files, only if they are. -/
theorem batch_touches_iff (host : Host Tree Pattern) (files : host.Files Place Node) (tree : Tree) (root : FilePath)
    (request : BatchRequest) (options : RenameOptions) {paths : List FilePath}
    (collected : host.collect tree root request.includes = .ok paths) :
    ∃ accepts report after entries,
      host.selection request.includes = .ok accepts ∧ batch host tree root request options = .ok (report, after) ∧
      (∀ path, path ∈ paths ↔ ∃ entry, some entry ∈ host.walk tree root ∧ entry.isFile = true ∧ entry.path = path ∧
        (FilePath.below? root path).any accepts = true) ∧
      paths.Pairwise (fun first second => files.leads tree first ≠ files.leads tree second) ∧
      entries.map (·.path) = paths ∧ Summarizes root report entries ∧
      (entries.length < 2 ^ 32 → Counts report entries) ∧
      (∀ entry ∈ entries,
        Reports (request.attempt options) (label root entry.path) (host.readSource tree entry.path) entry.outcome ∨
          ∃ current, Meets host tree root request options paths entry.path current ∧
            Blocked host tree root request options current entry.path entry.outcome) ∧
      (request.inPlace = false → after = tree) ∧
      (request.inPlace = true →
        ((∀ entry ∈ entries, entry.outcome.isRenamed = true → Spelled root entry.path) →
          Touches files tree after (request.attempt options) entries) ∧
        (files.Unlinked tree root → Touches files tree after (request.attempt options) entries →
          ∀ entry ∈ entries, entry.outcome.isRenamed = true → Spelled root entry.path)) := by
  obtain ⟨lists, accepts, chosen, listed⟩ := Host.collect_lists files collected
  obtain ⟨report, entries, after, ran, runs, summarizes⟩ := batch_runs host tree root request options collected
  exact ⟨accepts, report, after, entries, chosen, ran, listed, lists.distinct, runs.map_path, summarizes,
    summarizes.counts, fun entry member => runs.reports member, runs.eq_of_not_inPlace, fun inPlace =>
      ⟨runs.touches lists inPlace, fun unlinked touches entry => runs.spelled lists unlinked touches⟩⟩

/-! ### Two files -/

def twoFiles (declaring other : FilePath) : FileTree :=
  (FileTree.addFile {} (FilePath.place declaring) (.text "class A { int x; }")).addFile (FilePath.place other)
    (.text "class B { }")

def renameField : Command.BatchRequest := ⟨"A", .field, "x", none, "y", [], true⟩

private theorem renameField_locator : renameField.locator = .path ["A"] .field "x" none := by cbv

private theorem attempt_declaring :
    ∃ result, renameField.attempt {} "class A { int x; }" = .ok result ∧ result.text = "class A { int y; }" := by
  have computed : (RenameContext.run {} "class A { int x; }" (.path ["A"] .field "x" none) "y").toOption.any
      (·.text == "class A { int y; }") = true := by
    decide +kernel
  obtain ⟨result, ran, text⟩ := exists_ok_of_any computed
  rw [← renameField_locator] at ran
  exact ⟨result, ran, beq_iff_eq.mp text⟩

private theorem attempt_other :
    ∃ error, renameField.attempt {} "class B { }" = .error error ∧ error.isNotFound = true := by
  have computed : (JobOutcome.mk ⟨"", "class B { }", .path ["A"] .field "x" none, "y"⟩
      (RenameContext.run {} "class B { }" (.path ["A"] .field "x" none) "y")).isNotFound = true := by
    decide +kernel
  rw [← renameField_locator] at computed
  unfold JobOutcome.isNotFound at computed
  split at computed
  · rename_i error refused
    exact ⟨error, refused, computed⟩
  · cases computed

private theorem twoFiles_collect {declaring other root : FilePath} {paths : List FilePath}
    (present : (twoFiles declaring other).isDirectory root = true)
    (selects : (FileTree.host.selection []).toOption.any (fun accepts =>
      ((twoFiles declaring other).walk root).filterMap (Host.selected? root accepts) == paths) = true)
    (sorted : paths.Pairwise fun left right => FilePath.le left right = true) :
    FileTree.host.collect (twoFiles declaring other) root [] = .ok paths := by
  obtain ⟨accepts, chosen, found⟩ := exists_ok_of_any selects
  refine Host.collect_eq_ok.mpr ⟨present, accepts, chosen, ?_⟩
  have listed : (FileTree.host.walk (twoFiles declaring other) root).filterMap (Host.selected? root accepts) = paths :=
    beq_iff_eq.mp found
  rw [listed, List.mergeSort_of_pairwise sorted]

section TwoFiles

variable {tree current after : FileTree} {root first second : FilePath} {place : List FilePath}

private theorem eq_of_meets_second (readFirst : FileTree.host.readSource tree first = .ok "class B { }")
    (meets : Command.Meets FileTree.host tree root renameField {} [first, second] second current) : current = tree := by
  obtain ⟨error, refused, _⟩ := attempt_other
  obtain ⟨earlier, handled, ⟨rest, whole⟩, runs⟩ := meets
  have only : ∀ path ∈ earlier, path = first := by
    intro path member
    cases earlier with
    | nil => cases member
    | cons head earlier =>
        cases earlier with
        | nil =>
            cases whole
            exact List.mem_singleton.mp member
        | cons next earlier =>
            have lengths := congrArg List.length whole
            simp at lengths
  apply runs.eq_of_refused
  intro path member source result read attempted
  rw [only path member, readFirst] at read
  cases read
  cases refused.symm.trans attempted

private theorem not_blocked (target : tree.target (join root (.ofText (Command.label root second))) = .ok place)
    {outcome : FileOutcome} : ¬Command.Blocked FileTree.host tree root renameField {} tree second outcome := by
  rintro ⟨_, _, result, trouble, _, _, _, failed, _⟩
  have wrote : tree.write (join root (.ofText (Command.label root second))) result.text =
      .ok (tree.put place (.file (.text result.text))) := by
    unfold FileTree.write
    rw [target]
    rfl
  rw [FileTree.host_replace, wrote] at failed
  cases failed

end TwoFiles

/-- The file that declares the field is rewritten, the other is skipped and stays. -/
theorem batch_touches_iff_field :
    FileTree.host.collect (twoFiles (.ofText "b/c.java") (.ofText "a.java")) (.ofText ".") [] =
      .ok [.ofText "./a.java", .ofText "./b/c.java"] ∧
    ∃ report after,
      Command.batch FileTree.host (twoFiles (.ofText "b/c.java") (.ofText "a.java")) (.ofText ".") renameField {} =
        .ok (report, after) ∧
      report.renamed = 1 ∧ report.skipped = 1 ∧ report.status = "ok" ∧
      after.node? [.ofText "b", .ofText "c.java"] = some (.file (.text "class A { int y; }")) ∧
      ∀ place, place ≠ [.ofText "b", .ofText "c.java"] →
        after.node? place = (twoFiles (.ofText "b/c.java") (.ofText "a.java")).node? place := by
  generalize trees : twoFiles (.ofText "b/c.java") (.ofText "a.java") = tree
  have collected : FileTree.host.collect tree (.ofText ".") [] = .ok [.ofText "./a.java", .ofText "./b/c.java"] := by
    rw [← trees]
    exact twoFiles_collect (by decide +kernel) (by decide +kernel) (by decide +kernel)
  have stood : tree.node? [.ofText "b", .ofText "c.java"] = some (.file (.text "class A { int x; }")) := by
    rw [← trees]
    decide +kernel
  have readOther : FileTree.host.readSource tree (.ofText "./a.java") = .ok "class B { }" := by
    rw [← trees]
    exact eq_ok_of_toOption (by decide +kernel)
  have readDeclaring : FileTree.host.readSource tree (.ofText "./b/c.java") = .ok "class A { int x; }" := by
    rw [← trees]
    exact eq_ok_of_toOption (by decide +kernel)
  have target : tree.target (join (.ofText ".") (.ofText (Command.label (.ofText ".") (.ofText "./b/c.java")))) =
      .ok [.ofText "b", .ofText "c.java"] := by
    rw [← trees]
    exact eq_ok_of_toOption (by decide +kernel)
  have leads : FilePath.place (.ofText "./b/c.java") = [.ofText "b", .ofText "c.java"] := by decide +kernel
  have spelled : Command.Spelled (.ofText ".") (.ofText "./b/c.java") :=
    ⟨"b/c.java", by decide +kernel, by decide +kernel⟩
  obtain ⟨result, attempted, text⟩ := attempt_declaring
  obtain ⟨error, refused, notFound⟩ := attempt_other
  have changes : result.text ≠ "class A { int x; }" := by rw [text]; decide
  refine ⟨collected, ?_⟩
  obtain ⟨accepts, report, after, entries, -, ran, -, -, paths, summarizes, -, reports, -, touches⟩ :=
    batch_touches_iff FileTree.host FileTree.files tree (.ofText ".") renameField {} collected
  obtain ⟨⟨_, other⟩, _, rfl, rfl, later⟩ := List.map_eq_cons_iff.mp paths
  obtain ⟨⟨_, declaring⟩, _, rfl, rfl, none⟩ := List.map_eq_cons_iff.mp later
  cases List.map_eq_nil_iff.mp none
  have skipped : other = .skipped := by
    rcases reports _ List.mem_cons_self with own | ⟨_, _, _, _, _, _, read, again, _⟩
    · rw [readOther] at own
      exact own.eq_skipped refused notFound
    · cases read.symm.trans readOther
      cases again.symm.trans refused
  have renamed : declaring.isRenamed = true := by
    rcases reports _ (List.mem_cons_of_mem _ List.mem_cons_self) with own | ⟨_, meets, blocked⟩
    · rw [readDeclaring] at own
      exact own.isRenamed attempted changes
    · cases eq_of_meets_second readOther meets
      exact absurd blocked (not_blocked target)
  cases skipped
  obtain ⟨summary, rfl⟩ := Command.exists_summary renamed
  have touched := (touches rfl).1 (by simpa [FileOutcome.isRenamed] using spelled)
  obtain ⟨place, source, produced, led, before, again, now⟩ :=
    touched.renamed _ (List.mem_cons_of_mem _ List.mem_cons_self) renamed
  cases (Option.some.inj led).symm.trans leads
  cases before.symm.trans stood
  cases again.symm.trans attempted
  have renamedOne : report.renamed = 1 := by simpa [FileOutcome.isRenamed] using summarizes.renamed
  have skippedOne : report.skipped = 1 := by simpa [FileOutcome.isSkipped] using summarizes.skipped
  have failedNone : report.failed = 0 := by simpa [FileOutcome.isFailed] using summarizes.failed
  have status := summarizes.status
  rw [failedNone, if_pos rfl] at status
  rw [text] at now
  refine ⟨report, after, ran, renamedOne, skippedOne, status, now, ?_⟩
  intro place apart
  apply touched.others
  intro entry member changed leadsHere
  rcases List.mem_cons.mp member with rfl | only
  · cases changed
  · cases List.mem_singleton.mp only
    exact apart ((Option.some.inj leadsHere).symm.trans leads)

/-- A file whose name holds a backslash stays as it is, though it is reported as renamed, and its new text replaces the
file that its label names, though that one is reported as skipped. -/
theorem batch_misplaces :
    FileTree.host.collect (twoFiles (.ofText "a\\b.java") (.ofText "a/b.java")) (.ofText ".") [] =
      .ok [.ofText "./a/b.java", .ofText "./a\\b.java"] ∧
    ∃ report after summary,
      Command.batch FileTree.host (twoFiles (.ofText "a\\b.java") (.ofText "a/b.java")) (.ofText ".") renameField {} =
        .ok (report, after) ∧
      report.files.Perm [⟨"a/b.java", .skipped⟩, ⟨"a/b.java", .renamed summary⟩] ∧
      after.node? [.ofText "a\\b.java"] = some (.file (.text "class A { int x; }")) ∧
      after.node? [.ofText "a", .ofText "b.java"] = some (.file (.text "class A { int y; }")) := by
  generalize trees : twoFiles (.ofText "a\\b.java") (.ofText "a/b.java") = tree
  have collected : FileTree.host.collect tree (.ofText ".") [] =
      .ok [.ofText "./a/b.java", .ofText "./a\\b.java"] := by
    rw [← trees]
    exact twoFiles_collect (by decide +kernel) (by decide +kernel) (by decide +kernel)
  have stood : tree.node? [.ofText "a\\b.java"] = some (.file (.text "class A { int x; }")) := by
    rw [← trees]
    decide +kernel
  have readOther : FileTree.host.readSource tree (.ofText "./a/b.java") = .ok "class B { }" := by
    rw [← trees]
    exact eq_ok_of_toOption (by decide +kernel)
  have readDeclaring : FileTree.host.readSource tree (.ofText "./a\\b.java") = .ok "class A { int x; }" := by
    rw [← trees]
    exact eq_ok_of_toOption (by decide +kernel)
  -- both labels read `a/b.java`, so the text of the second file lands on the first
  have target : tree.target (join (.ofText ".") (.ofText (Command.label (.ofText ".") (.ofText "./a\\b.java")))) =
      .ok [.ofText "a", .ofText "b.java"] := by
    rw [← trees]
    exact eq_ok_of_toOption (by decide +kernel)
  have spelled : Command.label (.ofText ".") (.ofText "./a\\b.java") = "a/b.java" := by decide +kernel
  have sameLabel : Command.label (.ofText ".") (.ofText "./a/b.java") = "a/b.java" := by decide +kernel
  obtain ⟨result, attempted, text⟩ := attempt_declaring
  obtain ⟨error, refused, notFound⟩ := attempt_other
  have changes : result.text ≠ "class A { int x; }" := by rw [text]; decide
  refine ⟨collected, ?_⟩
  obtain ⟨report, entries, after, ran, runs, summarizes⟩ :=
    Command.batch_runs FileTree.host tree (.ofText ".") renameField {} collected
  cases runs with
  | @next _ between _ _ other _ _ first rest =>
      have skipped : other = .skipped ∧ between = tree := by
        cases first with
        | reported reports =>
            rw [readOther] at reports
            exact ⟨reports.eq_skipped refused notFound, rfl⟩
        | written _ read again =>
            cases read.symm.trans readOther
            cases again.symm.trans refused
        | unwritten blocked =>
            obtain ⟨_, _, _, _, read, again, _⟩ := blocked
            cases read.symm.trans readOther
            cases again.symm.trans refused
      obtain ⟨rfl, rfl⟩ := skipped
      cases rest with
      | @next _ _ _ _ declaring _ _ second done =>
          cases done
          cases second with
          | reported reports unwritten =>
              rw [readDeclaring] at reports
              cases (unwritten rfl).symm.trans (reports.isRenamed attempted changes)
          | written _ read again _ changed wrote =>
              cases read.symm.trans readDeclaring
              cases again.symm.trans attempted
              obtain ⟨summary, rfl⟩ := Command.exists_summary changed
              obtain ⟨filled, led, now, others⟩ := FileTree.files.replace_ok wrote
              cases (FileTree.target_eq_ok target).1.trans (Option.some.inj led)
              have kept := others [.ofText "a\\b.java"] (by decide +kernel)
              rw [text] at now
              refine ⟨report, _, summary, ran, ?_, kept.trans stood, now⟩
              have listed := summarizes.files
              rwa [List.map_cons, List.map_cons, List.map_nil, Command.BatchEntry.report, Command.BatchEntry.report,
                sameLabel, spelled] at listed
          | unwritten blocked => exact absurd blocked (not_blocked target)

end ScopedRename
