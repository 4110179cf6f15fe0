import ScopedRename.Proofs.Binding.OneRole
import ScopedRename.Proofs.Outline.Settled
import ScopedRename.Proofs.Plan.Exact
import ScopedRename.Report

/-!
The order of reports. Uses are found word by word, so they come in the order of the text. Declarations come in the order
in which the walk makes them, and one construct is declared from the middle outwards: a method is declared before the
type parameters that stand in front of it. Main statement: the declarations come in the order of the text if and only
if the walk meets no such method.
-/

namespace ScopedRename

namespace Walk

variable {code : Code} {walk after : Walk} {position : Nat}

/-- What is read at a word is a method with type parameters listed in front of its type. -/
def DeclaresGeneric (code : Code) (walk : Walk) (position : Nat) : Prop :=
  ∃ run close, ∃ later : position + 1 < close,
    walk.step code position = walk.methodDeclaration code position (some run) ∧
      code.typeBefore? position = some run ∧ code.close? (position + 1) = some ⟨close, later⟩ ∧
      code.listedParameters run ≠ []

/-- A step that declares nothing behind the walk declares in order. -/
theorem Effect.ascending {next : Nat} (effect : Effect code walk position (after, next)) {names : List Nat}
    (added : after.names = walk.names ++ names) (ahead : ∀ name ∈ names, position ≤ name) :
    names.Pairwise (· < ·) := by
  have new {declarations : List Declaration}
      (list : after.declarations.toList = walk.declarations.toList ++ declarations) :
      names = declarations.map (·.position) := by
    refine List.append_cancel_left (added.symm.trans ?_)
    unfold Outline.names
    rw [list, List.map_append]
  cases effect with
  | stays _ fills =>
      obtain ⟨declarations, list, ascending, _⟩ := fills.declared
      rw [new list]
      exact List.pairwise_map.mpr ascending
  | opens opens opening =>
      have ordered := opens.ordered
      obtain ⟨outer, listed, inner, list, ⟨outerAscending, outerFacts⟩, ⟨_, listedFacts⟩,
        ⟨innerAscending, innerFacts⟩⟩ := opening.declared
      -- what stands in front of the walk's word would be a listed type parameter
      have none : listed = [] := by
        refine List.eq_nil_iff_forall_not_mem.mpr fun declaration member => ?_
        have behind := (listedFacts declaration member).2.2.2
        have front := ahead declaration.position (by
          rw [new list]
          exact List.mem_map_of_mem (List.mem_append_left _ (List.mem_append_right _ member)))
        omega
      rw [new list, none, List.append_nil, List.pairwise_map]
      refine List.pairwise_append.mpr ⟨outerAscending, innerAscending, ?_⟩
      intro left outside right inside
      have := outerFacts left outside
      have := innerFacts right inside
      omega

theorem Roles.declaresGeneric {names types freed : List Nat} (roles : Roles code walk position names types freed)
    (some : freed ≠ []) : DeclaresGeneric code walk position := by
  cases roles with
  | method reads opener typed closed => exact ⟨_, _, _, reads, typed, closed, some⟩
  | _ => exact absurd rfl some

/-- A step keeps the order of the names unless it declares such a method. -/
theorem step_ascending (passed : Passed position walk) (inside : position < code.size)
    (plain : ¬DeclaresGeneric code walk position) (ordered : walk.names.Pairwise (· < ·)) :
    (walk.step code position).1.names.Pairwise (· < ·) := by
  obtain @⟨names, _, freed, roles, casts⟩ := step_plays code walk position
  have ahead : ∀ name ∈ names, position ≤ name := by
    intro name declared
    refine roles.ahead declared fun listed => ?_
    exact plain (roles.declaresGeneric (List.ne_nil_of_mem listed))
  have ascending := (step_effect walk inside).ascending casts.declared ahead
  rw [casts.declared]
  refine List.pairwise_append.mpr ⟨ordered, ascending, ?_⟩
  intro former known name declared
  exact Nat.lt_of_lt_of_le (passed former known) (ahead name declared)

/-- Such a method is declared before what stands in front of it. -/
theorem step_not_ascending (generic : DeclaresGeneric code walk position) :
    ¬(walk.step code position).1.names.Pairwise (· < ·) := by
  obtain ⟨run, close, later, reads, typed, closed, nonempty⟩ := generic
  obtain ⟨parameter, listed⟩ := List.exists_mem_of_ne_nil _ nonempty
  have casts := methodDeclaration_casts code walk typed closed
  rw [reads, casts.declared]
  intro ordered
  have declared := (List.pairwise_append.mp ordered).2.1
  have after := (List.pairwise_cons.mp declared).1 parameter (List.mem_append_left _ listed)
  have before := Code.listedParameters_lt listed
  have start := code.typeBefore?_start_lt typed
  omega

/-- Names are declared in the order of the words if and only if no method with type parameters is declared. -/
theorem ascending_iff (code : Code) :
    (Outline.ofCode code).names.Pairwise (· < ·) ↔
      ∀ state position, Visits code (Walk.start code.layout) 0 state position → ¬DeclaresGeneric code state position := by
  constructor
  · intro ordered state position visits generic
    have kept := run_names_prefix code (state.step code position).1 (state.step code position).2
    rw [← visits.run_eq] at kept
    exact step_not_ascending generic (ordered.sublist kept.sublist)
  · intro plain
    have stopped : ∃ stop, code.size ≤ stop ∧ Passed stop (run code (Walk.start code.layout) 0) ∧
        (run code (Walk.start code.layout) 0).names.Pairwise (· < ·) := by
      refine run_visited (fun stop walk => Passed stop walk ∧ walk.names.Pairwise (· < ·)) ?_
        ⟨Passed.start code.layout, List.Pairwise.nil⟩
      intro walk position visits ⟨passed, ordered⟩
      exact ⟨passed.arrive.step visits.inside,
        step_ascending passed.arrive visits.inside (plain _ position visits) ordered⟩
    obtain ⟨_, _, _, ordered⟩ := stopped
    exact ordered

end Walk

def Location.starts (locations : List Location) : List Nat :=
  locations.filterMap fun location => location.span.map (·.start)

theorem filterMap_range_getElem? {item value : Type} (items : List item) (view : item → value) :
    (List.range items.length).filterMap (fun i => (items[i]?).map view) = items.map view := by
  induction items with
  | nil => rfl
  | cons first rest ih =>
      rw [List.length_cons, List.range_succ_eq_map, List.filterMap_cons, List.filterMap_map, List.map_cons, ← ih]
      rfl

namespace Analysis

variable {source : String} {index : ProjectIndex} {analysis : Analysis}

theorem starts_locations {item : Type} (analysis : Analysis) (file : String) (place : item → Nat) (items : List item) :
    Location.starts (items.map fun entry => analysis.locationOf file (place entry)) =
      items.map fun entry => (analysis.layout.span (place entry)).start := by
  unfold Location.starts
  rw [List.filterMap_map]
  exact congrFun List.filterMap_eq_map' items

theorem declarationReports_locations (analysis : Analysis) (file : String) :
    (analysis.declarationReports file).map (·.symbol.location) =
      analysis.bound.outline.declarations.toList.map fun declaration =>
        analysis.locationOf file declaration.position := by
  unfold declarationReports
  rw [List.map_filterMap, ← filterMap_range_getElem?]
  refine List.filterMap_congr fun id _ => ?_
  unfold symbol? Outline.declaration?
  rw [Array.getElem?_toList]
  cases analysis.bound.outline.declarations[id]? with
  | none => rfl
  | some declaration => rfl

end Analysis

/-- Reports list every declaration and every use by where it starts. The uses start in ascending order; the declarations
do exactly if the walk declares no method with type parameters in front of its type. -/
theorem reports_in_source_order_iff {source : String} {index : ProjectIndex} {analysis : Analysis}
    (analysed : Analysis.ofText source index = .ok analysis) (file : String) :
    Location.starts ((analysis.referenceReports file).map (·.location)) =
        (analysis.bound.references.toList.map fun reference => (analysis.layout.span reference.position).start) ∧
      (Location.starts ((analysis.referenceReports file).map (·.location))).Pairwise (· < ·) ∧
      Location.starts ((analysis.declarationReports file).map (·.symbol.location)) =
        (analysis.bound.outline.declarations.toList.map fun declaration =>
          (analysis.layout.span declaration.position).start) ∧
      ((Location.starts ((analysis.declarationReports file).map (·.symbol.location))).Pairwise (· < ·) ↔
        ∀ state position, Walk.Visits analysis.code (Walk.start analysis.code.layout) 0 state position →
          ¬Walk.DeclaresGeneric analysis.code state position) := by
  obtain ⟨_, _, _, _, bound, _⟩ := Analysis.ofText_eq_ok analysed
  have uses : Location.starts ((analysis.referenceReports file).map (·.location)) =
      analysis.bound.references.toList.map fun reference => (analysis.layout.span reference.position).start := by
    have starts := analysis.starts_locations file Reference.position analysis.bound.references.toList
    rw [Analysis.referenceReports, List.map_map]
    exact starts
  have names : Location.starts ((analysis.declarationReports file).map (·.symbol.location)) =
      analysis.bound.outline.declarations.toList.map fun declaration =>
        (analysis.layout.span declaration.position).start := by
    have starts := analysis.starts_locations file Declaration.position analysis.bound.outline.declarations.toList
    rw [analysis.declarationReports_locations file]
    exact starts
  have := Analysis.layout_ordered analysed
  refine ⟨uses, ?_, names, ?_⟩
  · rw [uses]
    simpa only [List.pairwise_map, Layout.start_lt_start] using Analysis.references_ordered analysed
  · rw [names, ← Walk.ascending_iff analysis.code, bound]
    simp only [Outline.names, List.pairwise_map, Layout.start_lt_start]

/-- A class with a field and a method that lists no type parameters. -/
theorem reports_in_source_order_iff_plain :
    ∃ analysis, Analysis.ofText "class A<T> { T x; T f(T y) { return x; } }" ProjectIndex.empty = .ok analysis ∧
      Location.starts ((analysis.declarationReports "A.java").map (·.symbol.location)) = [6, 8, 15, 20, 24] ∧
      (Location.starts ((analysis.declarationReports "A.java").map (·.symbol.location))).Pairwise (· < ·) := by
  have computed : ((Analysis.ofText "class A<T> { T x; T f(T y) { return x; } }" ProjectIndex.empty).toOption.any
      fun analysis =>
        Location.starts ((analysis.declarationReports "A.java").map (·.symbol.location)) == [6, 8, 15, 20, 24]
          && ((Walk.visited analysis.code (Walk.start analysis.code.layout) 0).all fun entry =>
            (analysis.code.typeBefore? entry.2).all fun run => (analysis.code.listedParameters run).isEmpty)) = true := by
    decide +kernel
  obtain ⟨analysis, analysed, facts⟩ := exists_ok_of_any computed
  simp only [Bool.and_eq_true, beq_iff_eq, List.all_eq_true] at facts
  refine ⟨analysis, analysed, facts.1, (reports_in_source_order_iff analysed "A.java").2.2.2.mpr ?_⟩
  rintro state position visits ⟨run, _, _, _, typed, _, nonempty⟩
  have plain := facts.2 (state, position) (Walk.mem_visited.mpr visits)
  rw [typed, Option.all_some] at plain
  exact nonempty (List.isEmpty_iff.mp plain)

/-- The method comes before its type parameter. -/
theorem generic_method_reported_first :
    ∃ analysis, Analysis.ofText "class A { <T> void f(T x) { } }" ProjectIndex.empty = .ok analysis ∧
      Location.starts ((analysis.declarationReports "A.java").map (·.symbol.location)) = [6, 19, 11, 23] ∧
      ¬(Location.starts ((analysis.declarationReports "A.java").map (·.symbol.location))).Pairwise (· < ·) := by
  have computed : ((Analysis.ofText "class A { <T> void f(T x) { } }" ProjectIndex.empty).toOption.any fun analysis =>
      Location.starts ((analysis.declarationReports "A.java").map (·.symbol.location)) == [6, 19, 11, 23]) = true := by
    decide +kernel
  obtain ⟨analysis, analysed, facts⟩ := exists_ok_of_any computed
  have listed := beq_iff_eq.mp facts
  refine ⟨analysis, analysed, listed, ?_⟩
  rw [listed]
  decide

end ScopedRename
