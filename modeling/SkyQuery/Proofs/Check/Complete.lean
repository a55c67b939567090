import SkyQuery.Proofs.Check.Rules
import SkyQuery.Proofs.Located.Texts

/-!
# Checks are complete

Each pass of a check marks exactly the parts of a tree that break its rule. `complaints_readQuery`
puts the passes together: the faults of a query are those of its parts at every depth.
-/

namespace SkyQuery

/-! ### What a walk sees -/

def Part.operand? : Part → Option Operand
  | .operand o => some o
  | _ => none

theorem Node.uses_eq (n : Node) : n.uses = n.parts.flatMap fun p => useOf p.feature? p.span := by
  cases n with
  | operand o =>
    rw [uses, parts, List.flatMap_map]
    rfl
  | constraint c => simp [uses, parts, Part.feature?, Part.span]
  | withItem item => rfl
  | setOperation o => rfl
  | offset o => rfl

theorem Node.operands_eq (n : Node) : n.operands = n.parts.filterMap Part.operand? := by
  cases n with
  | operand o =>
    rw [operands, parts, List.filterMap_map]
    exact (List.filterMap_some ..).symm
  | _ => rfl

theorem Query.uses_eq (q : Query) :
    (Fragment.query q).uses = (Part.query q).walk.flatMap fun p => useOf p.feature? p.span := by
  rw [Part.walk, partsOf, List.flatMap_assoc]
  exact List.flatMap_congr fun n _ => n.uses_eq

theorem Query.operands_eq (q : Query) :
    (Fragment.query q).operands = (Part.query q).walk.filterMap Part.operand? := by
  rw [Part.walk, partsOf, List.filterMap_flatMap]
  exact List.flatMap_congr fun n _ => n.operands_eq

theorem Part.mem_all_of_mem_walk {p c : Part} (h : c ∈ p.walk) : c ∈ p.all := by
  obtain ⟨d, hd, visited⟩ := List.mem_flatMap.1 (p.walk_perm_all.mem_iff.1 h)
  cases d <;> simp_all [visit]

/-! ### Passes -/

namespace Check

variable {s : Session} {supported : FeatureSet} {policy : Option Policy}

theorem features_marks (s : Session) (q : Query) :
    (features (.query q) s.config.features s.config.anyFunction).map Diagnostic.mark =
      (Part.query q).walk.flatMap fun p => s.featureMarks p.feature? p.span := by
  rw [features, Query.uses_eq, List.filter_flatMap, List.map_flatMap, List.map_flatMap]
  apply List.flatMap_congr
  intro p _
  unfold useOf Session.featureMarks
  cases p.feature? with
  | none => rfl
  | some f =>
    have same : admits s.config.features s.config.anyFunction f =
        (s.config.features.supports f || (s.config.anyFunction && f.isFunction)) := Bool.or_comm _ _
    simp only [Option.toList_some, List.map_cons, List.map_nil, ← same]
    cases judged : admits s.config.features s.config.anyFunction f <;>
      simp [judged, unsupported, Diagnostic.mark]

theorem ofWords_error {words : List String} {e : Diagnostic} (h : CoordSys.ofWords words = .error e) :
    e.code = .framedCartesian ∧ e.span = none := by
  unfold CoordSys.ofWords CoordSys.ofParts at h
  dsimp only at h
  split at h
  · cases h
  · cases h
    exact ⟨rfl, rfl⟩

theorem allowed_error {text : String} {e : Diagnostic} (h : allowed policy text = .error e) :
    e.span = none ∧ Session.sysCode? policy text = some e.code := by
  unfold allowed CoordSys.parse at h
  unfold Session.sysCode?
  cases hwords : CoordSys.ofWords (Text.words text) with
  | error f =>
    rw [hwords] at h
    cases h
    obtain ⟨code, span⟩ := ofWords_error hwords
    exact ⟨span, by rw [code]⟩
  | ok r =>
    obtain ⟨sys, rest⟩ := r
    rw [hwords] at h
    cases rest with
    | cons word rest =>
      cases h
      exact ⟨rfl, rfl⟩
    | nil =>
      cases policy with
      | none => cases h
      | some p =>
        change p.check text sys = _ at h
        unfold Policy.check at h
        split at h
        · cases h
        · rename_i refused
          cases h
          exact ⟨rfl, by simp [refused]⟩

theorem allowed_ok {text : String} (h : allowed policy text = .ok ()) : Session.sysCode? policy text = none := by
  unfold allowed CoordSys.parse at h
  unfold Session.sysCode?
  cases hwords : CoordSys.ofWords (Text.words text) with
  | error f =>
    rw [hwords] at h
    cases h
  | ok r =>
    obtain ⟨sys, rest⟩ := r
    rw [hwords] at h
    cases rest with
    | cons word rest => cases h
    | nil =>
      cases policy with
      | none => rfl
      | some p =>
        change p.check text sys = _ at h
        unfold Policy.check at h
        split at h
        · rename_i accepted
          simp [accepted]
        · cases h

theorem sysFault_mark (text : String) (span : Option Span) :
    (sysFault? policy text span).map Diagnostic.mark =
      (Session.sysCode? policy text).map fun code => (code, span) := by
  unfold sysFault?
  cases h : allowed policy text with
  | ok u => simp [allowed_ok h]
  | error e =>
    obtain ⟨unplaced, code⟩ := allowed_error h
    simp [code, Diagnostic.mark, Diagnostic.orAt, unplaced]

theorem coordSystems_marks (q : Query) :
    (coordSystems (.query q) policy).map Diagnostic.mark =
      (Part.query q).walk.flatMap fun p => p.operand?.toList.flatMap (Session.sysMarks policy) := by
  rw [coordSystems, Query.operands_eq, List.filterMap_filterMap, List.filterMap_filterMap, List.map_filterMap,
    List.filterMap_eq_flatMap_toList]
  apply List.flatMap_congr
  intro p _
  cases p with
  | operand o =>
    cases o with
    | geometry fn sys args span =>
      cases sys with
      | none => rfl
      | some sys =>
        simp only [Part.operand?, Operand.literalSys?, Session.sysMarks, Option.bind_some, Option.toList_some,
          List.flatMap_cons, List.flatMap_nil, List.append_nil]
        cases sys.asString? with
        | none => rfl
        | some text =>
          simp only [Option.map_some, Option.bind_some, sysFault_mark]
          cases Session.sysCode? policy text <;> rfl
    | _ => rfl
  | _ => rfl

/-! ### Regions -/

theorem region_marks (s : Session) (span : Option Span) (r : Region) :
    ((region s.config.features s.policy span r).map Diagnostic.mark).Perm
      ((r.all.flatMap s.shapeCodes).map fun code => (code, span)) := by
  have part (c : Region) : ((shapeFault? s.config.features span c).toList ++
      (regionSysFault? s.policy span c).toList).map Diagnostic.mark =
        (s.shapeCodes c).map fun code => (code, span) := by
    rw [List.map_append, Session.shapeCodes, List.map_append]
    congr 1
    · unfold shapeFault?
      cases c.kind.feature? with
      | none => rfl
      | some f => by_cases supports : s.config.features.supports f <;> simp [supports, Diagnostic.mark]
    · unfold regionSysFault?
      cases s.policy with
      | none => cases c.sys? <;> rfl
      | some p =>
        cases c.sys? with
        | none => rfl
        | some sys =>
          by_cases allows : p.allows sys <;>
            simp [Policy.check, allows, Diagnostic.mark, Diagnostic.orAt]
  rw [region, List.map_flatMap, List.map_flatMap]
  simp only [part]
  exact r.walk_perm_all.flatMap_right _

/-- Calls of `REGION` that are read have one argument, and it has a place. -/
theorem regionCall_marks (s : Session) {v : Version} {call : Operand} (formed : call.WellFormed v)
    (placed : ∀ o ∈ call.children, o.span.isSome = true) (region : call.isRegionCall = true) :
    ((regionCall s.config.features s.policy call).map Diagnostic.mark).Perm (s.regionMarks call) := by
  cases call with
  | geometry fn sys args span =>
    obtain rfl : fn = .region := by
      cases fn <;> first | rfl | cases region
    obtain ⟨⟨-, rule⟩, -⟩ := formed
    obtain ⟨rfl, length, -⟩ := rule
    obtain ⟨arg, rfl⟩ := List.length_eq_one_iff.1 length
    obtain ⟨place, here⟩ := Option.isSome_iff_exists.1 (placed arg List.mem_cons_self)
    have called : Region.ofOperand (.geometry .region none [arg] span) =
        (Region.ofLiteral [arg]).mapError (·.orAt span) := rfl
    rw [regionCall, called]
    unfold Region.ofLiteral Session.regionMarks
    cases harg : arg.asString? with
    | none => simp [harg, here, Except.mapError, Diagnostic.orAt, Diagnostic.mark]
    | some text =>
      cases hparse : Region.parse text with
      | error e => simp [harg, hparse, here, Except.mapError, Diagnostic.orAt, Diagnostic.mark]
      | ok r =>
        simp only [harg, hparse, Except.mapError]
        exact region_marks s span r
  | _ => cases region

theorem regionMarks_of_not_call (s : Session) {o : Operand} (h : o.isRegionCall = false) : s.regionMarks o = [] := by
  unfold Session.regionMarks
  split
  · cases h
  · rfl

theorem regions_marks (s : Session) {v : Version} {q : Query} (formed : q.WellFormed v) (placed : q.Placed) :
    ((regions (.query q) s.config.features s.policy).map Diagnostic.mark).Perm
      ((Part.query q).walk.flatMap fun p => p.operand?.toList.flatMap s.regionMarks) := by
  have called : regions (.query q) s.config.features s.policy = (Part.query q).walk.flatMap fun p =>
      (p.operand?.toList.filter Operand.isRegionCall).flatMap (regionCall s.config.features s.policy) := by
    rw [regions, Query.operands_eq, List.filterMap_eq_flatMap_toList, List.filter_flatMap, List.flatMap_assoc]
  rw [called, List.map_flatMap]
  apply List.Perm.flatMap_left
  intro p visited
  cases p with
  | operand o =>
    have member := Part.mem_all_of_mem_walk visited
    have whole : (Part.query q).WellFormed v := formed
    have formed : o.WellFormed v := whole.all _ member
    have placed : (Part.operand o).Placed := Part.Placed.all placed _ member
    have places : ∀ c ∈ o.children, c.span.isSome = true := by
      intro c hc
      have below := (Part.placed_iff.1 placed).2 (.operand c) (List.mem_map_of_mem hc)
      exact (Part.placed_iff.1 below).1
    by_cases region : o.isRegionCall = true
    · simpa [Part.operand?, region] using regionCall_marks s formed places region
    · have none := regionMarks_of_not_call s (Bool.eq_false_iff.2 region)
      simp [Part.operand?, region, none]
  | _ => rfl

end Check

/-! ### The whole check -/

namespace Session

theorem marks_eq (s : Session) (p : Part) :
    s.marks p = s.featureMarks p.feature? p.span ++ (p.operand?.toList.flatMap (sysMarks s.policy) ++
      if s.checksRegions then p.operand?.toList.flatMap s.regionMarks else []) := by
  have checks : s.checksRegions =
      (s.config.features.supports (.standard .geometry "REGION") && !s.config.extendedRegions) := Bool.and_comm _ _
  cases p with
  | operand o => simp [marks, Part.operand?, checks]
  | _ => simp [marks, Part.operand?]

/-- The faults of a query, in any order, are those of its parts. -/
theorem faults_marks (s : Session) {v : Version} {q : Query} (formed : q.WellFormed v) (placed : q.Placed) :
    ((s.faults (.query q)).map Diagnostic.mark).Perm ((Part.query q).all.flatMap s.marks) := by
  have unvisited (p : Part) : p.visit.flatMap s.marks = s.marks p := by
    cases p <;> simp [Part.visit, marks, featureMarks, Part.feature?]
  have walked : ((Part.query q).walk.flatMap s.marks).Perm ((Part.query q).all.flatMap s.marks) := by
    have perm := (Part.query q).walk_perm_all.flatMap_right s.marks
    rw [List.flatMap_assoc] at perm
    simpa only [unvisited] using perm
  have regions : ((if s.checksRegions then Check.regions (.query q) s.config.features s.policy else []).map
      Diagnostic.mark).Perm ((Part.query q).walk.flatMap fun p =>
        if s.checksRegions then p.operand?.toList.flatMap s.regionMarks else []) := by
    cases s.checksRegions with
    | true => exact Check.regions_marks s formed placed
    | false => simp
  refine .trans ((List.mergeSort_perm _ _).map _) (.trans ?_ walked)
  rw [List.append_assoc, List.map_append, List.map_append, Check.features_marks, Check.coordSystems_marks]
  simp only [funext s.marks_eq]
  refine .trans (.append_left _ ?_) (List.flatMap_append_perm _ _ _)
  exact .trans (.append_left _ regions) (List.flatMap_append_perm _ _ _)

theorem sysMarks_placed {policy : Option Policy} {o : Operand} (below : ∀ c ∈ o.children, c.span.isSome = true) :
    ∀ m ∈ sysMarks policy o, m.2.isSome = true := by
  intro m member
  unfold sysMarks at member
  split at member
  · rename_i sys args span
    split at member
    · obtain ⟨code, -, rfl⟩ := List.mem_map.1 member
      exact below sys List.mem_cons_self
    · cases member
  · cases member

theorem regionMarks_placed {s : Session} {o : Operand} (here : o.span.isSome = true)
    (below : ∀ c ∈ o.children, c.span.isSome = true) : ∀ m ∈ s.regionMarks o, m.2.isSome = true := by
  intro m member
  unfold regionMarks at member
  split at member
  · rename_i sys arg span
    have placed : arg.span.isSome = true := below arg (List.mem_append_right _ List.mem_cons_self)
    split at member
    · obtain rfl := List.mem_singleton.1 member
      exact placed
    split at member
    · obtain rfl := List.mem_singleton.1 member
      exact placed
    · obtain ⟨code, -, rfl⟩ := List.mem_map.1 member
      exact here
  · cases member

/-- Every fault that the rules find in a placed part has a place. -/
theorem marks_placed (s : Session) {p : Part} (h : p.Placed) : ∀ m ∈ s.marks p, m.2.isSome = true := by
  obtain ⟨here, below⟩ := Part.placed_iff.1 h
  intro m member
  rw [marks_eq] at member
  rcases List.mem_append.1 member with member | member
  · unfold featureMarks at member
    split at member
    · split at member
      · cases member
      · obtain rfl := List.mem_singleton.1 member
        exact here
    · cases member
  cases p with
  | operand o =>
    have places : ∀ c ∈ o.children, c.span.isSome = true := by
      intro c hc
      exact (Part.placed_iff.1 (below (.operand c) (List.mem_map_of_mem hc))).1
    simp only [Part.operand?, Option.toList_some, List.flatMap_cons, List.flatMap_nil, List.append_nil] at member
    rcases List.mem_append.1 member with member | member
    · exact sysMarks_placed places m member
    · split at member
      · exact regionMarks_placed here places m member
      · cases member
  | _ => simp [Part.operand?] at member

end Session

/-! ### The order of faults -/

theorem Span.precedes_iff {a b : Span} : a.precedes b = true ↔
    a.beginLine < b.beginLine ∨ a.beginLine = b.beginLine ∧ (a.beginColumn < b.beginColumn ∨
      a.beginColumn = b.beginColumn ∧ (a.endLine < b.endLine ∨
        a.endLine = b.endLine ∧ a.endColumn < b.endColumn)) := by
  simp only [precedes, Bool.or_eq_true, Bool.and_eq_true, beq_iff_eq, before_iff, first, last, Prod.mk.injEq]
  omega

theorem Diagnostic.notAfter_trans (a b c : Diagnostic) (ab : a.notAfter b = true) (bc : b.notAfter c = true) :
    a.notAfter c = true := by
  unfold notAfter at *
  cases ha : a.span <;> cases hb : b.span <;> cases hc : c.span <;> simp_all only [Bool.false_eq_true]
  rw [Bool.not_eq_true', Bool.eq_false_iff, Ne, Span.precedes_iff] at *
  omega

theorem Diagnostic.notAfter_total (a b : Diagnostic) : (a.notAfter b || b.notAfter a) = true := by
  unfold notAfter
  cases ha : a.span <;> cases hb : b.span <;> try rfl
  rw [Bool.or_eq_true, Bool.not_eq_true', Bool.not_eq_true', Bool.eq_false_iff, Bool.eq_false_iff, Ne, Ne,
    Span.precedes_iff, Span.precedes_iff]
  omega

theorem Diagnostic.sort_pairwise (ds : List Diagnostic) : (sort ds).Pairwise fun a b => a.notAfter b = true :=
  List.pairwise_mergeSort notAfter_trans notAfter_total ds

theorem Diagnostic.sort_eq_of_perm {ds es : List Diagnostic} (h : ds.Perm es)
    (sorted : es.Pairwise fun a b => a.notAfter b = true)
    (strict : ∀ a ∈ es, ∀ b ∈ es, a.notAfter b = true → b.notAfter a = true → a = b) : sort ds = es := by
  have perm : (sort ds).Perm es := (List.mergeSort_perm _ _).trans h
  exact perm.eq_of_pairwise (fun a b ha hb => strict a (perm.mem_iff.1 ha) b hb) (sort_pairwise ds) sorted

/-! ### Queries that are read -/

namespace Session

/-- For every query that is read the check fails with one fault for each mark of each part, all of
them placed and in the order of the text, and it succeeds if there is none. -/
theorem complaints_readQuery {v : Version} {text : String} {q : Query} (h : readQuery v text = .ok q)
    (s : Session) :
    ((s.complaints (.query q)).map Diagnostic.mark).Perm ((Part.query q).all.flatMap s.marks) ∧
      (s.check (.query q) = .ok () ↔ (Part.query q).all.flatMap s.marks = []) ∧
      (∀ d ∈ s.complaints (.query q), d.span.isSome = true) ∧
      (s.complaints (.query q)).Pairwise fun a b => a.notAfter b = true := by
  have formed : q.WellFormed v := Grammar.readWhole_ok Grammar.query_yields h
  have placed : q.Placed := readQuery_placed h
  have perm := s.faults_marks formed placed
  rw [check_ok_iff, complaints_eq]
  refine ⟨perm, ?_, ?_, Diagnostic.sort_pairwise _⟩
  · constructor
    · intro none
      rw [none] at perm
      exact perm.nil_eq.symm
    · intro none
      rw [none] at perm
      exact List.map_eq_nil_iff.1 perm.eq_nil
  · intro d member
    obtain ⟨p, hp, marked⟩ := List.mem_flatMap.1 (perm.mem_iff.1 (List.mem_map_of_mem member))
    have placed : p.Placed := Part.Placed.all placed _ hp
    exact s.marks_placed placed _ marked

theorem complaints_readQuery_nested :
    let text := "SELECT POINT('FK9', 1, 2) FROM t WHERE a IN (SELECT UPPER(b) FROM u WHERE c ILIKE 'd')"
    let s : Session := { config := {}, policy := none }
    ∃ q, readQuery .v21 text = .ok q ∧
      ((s.complaints (.query q)).map Diagnostic.mark).Perm ((Part.query q).all.flatMap s.marks) ∧
        (s.check (.query q) = .ok () ↔ (Part.query q).all.flatMap s.marks = []) ∧
        (∀ d ∈ s.complaints (.query q), d.span.isSome = true) ∧
        (s.complaints (.query q)).Pairwise fun a b => a.notAfter b = true := by
  intro text s
  obtain ⟨q, read⟩ := exists_ok_of_isSome (r := readQuery .v21 text) (by decide +kernel)
  exact ⟨q, read, complaints_readQuery read s⟩

end Session

end SkyQuery
