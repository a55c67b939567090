import SkyQuery.Proofs.Tree.Walk
import SkyQuery.Session

/-!
# Rules for parts

What is wrong with one part of a query, the parts below it left aside: the codes and places of its
faults. Regions, which stand in texts, are trees of their own with the same kind of descent.
-/

namespace SkyQuery

/-- What is counted of a fault. -/
abbrev Mark := Code × Option Span

def Diagnostic.mark (d : Diagnostic) : Mark := (d.code, d.span)

/-! ### Regions -/

namespace Region

theorem sizeOf_lt_of_mem_members (r : Region) : ∀ c ∈ r.members, sizeOf c < sizeOf r := by
  intro c h
  cases r with
  | combination op sys first second others =>
    rcases List.mem_cons.1 h with rfl | h
    · simp
      omega
    rcases List.mem_cons.1 h with rfl | h
    · simp
      omega
    · have := List.sizeOf_lt_of_mem h
      simp
      omega
  | not inner =>
    obtain rfl := List.mem_singleton.1 h
    simp
  | _ => cases h

/-- A region and all regions nested in it. -/
def all (r : Region) : List Region := descent members (wellFounded_of_shrinks sizeOf_lt_of_mem_members) r

theorem walkAll_eq_flatMap (rs : List Region) : walkAll rs = rs.flatMap walk := by
  induction rs with
  | nil => rfl
  | cons r rest ih => rw [walkAll, ih, List.flatMap_cons]

theorem walk_eq (r : Region) : r.walk = [r] ++ r.members.flatMap walk := by
  cases r <;> simp [walk, members, walkAll_eq_flatMap]

theorem walk_perm_all (r : Region) : r.walk.Perm r.all := by
  have perm : r.walk.Perm (r.all.flatMap fun r => [r]) := walk_perm _ walk (fun r => .of_eq (walk_eq r)) r
  rwa [List.flatMap_singleton'] at perm

end Region

/-! ### Rules -/

/-- The feature that a part itself needs. -/
def Part.feature? : Part → Option Feature
  | .operand o => o.feature?
  | .constraint c => c.feature?
  | .offset _ => some Offset.feature
  | .set o => some o.feature
  | .withItem _ => some WithItem.feature
  | .fromItem _ | .select _ | .query _ => none

namespace Session

/-- A feature must be supported, unless it is a function and functions need not be declared. -/
def featureMarks (s : Session) (feature : Option Feature) (span : Option Span) : List Mark :=
  match feature with
  | some f =>
    if s.config.features.supports f || (s.config.anyFunction && f.isFunction) then []
    else [(.unsupportedFeature, span)]
  | none => []

/-- What is wrong with the text of a coordinate system: it is cartesian with a frame, words are left
over, or the policy refuses it. -/
def sysCode? (policy : Option Policy) (text : String) : Option Code :=
  match CoordSys.ofWords (Text.words text) with
  | .error _ => some .framedCartesian
  | .ok (_, _ :: _) => some .invalidCoordSys
  | .ok (sys, []) => if policy.all fun p => p.allows sys then none else some .forbiddenCoordSys

/-- The coordinate system of a shape is judged if it is a string literal. -/
def sysMarks (policy : Option Policy) : Operand → List Mark
  | .geometry _ (some sys) _ _ =>
    match sys.asString? with
    | some text => (sysCode? policy text).toList.map fun code => (code, sys.span)
    | none => []
  | _ => []

/-- A region needs the feature of its shape, and its coordinate system must not be refused. -/
def shapeCodes (s : Session) (r : Region) : List Code :=
  (if r.kind.feature?.all s.config.features.supports then [] else [.unsupportedShape]) ++
    (if r.sys?.all fun sys => s.policy.all fun p => p.allows sys then [] else [.forbiddenCoordSys])

/-- The argument of `REGION` must be a string literal that holds a region; each region nested in it
is then judged. -/
def regionMarks (s : Session) : Operand → List Mark
  | .geometry .region _ [arg] span =>
    match arg.asString? with
    | none => [(.nonStringArgument, arg.span)]
    | some text =>
      match Region.parse text with
      | .error _ => [(.unsupportedSerialization, arg.span)]
      | .ok r => (r.all.flatMap s.shapeCodes).map fun code => (code, span)
  | _ => []

/-- The faults of one part. Regions are judged if `REGION` is supported and takes literals only. -/
def marks (s : Session) (p : Part) : List Mark :=
  s.featureMarks p.feature? p.span ++
    match p with
    | .operand o =>
      sysMarks s.policy o ++
        if s.config.features.supports (.standard .geometry "REGION") && !s.config.extendedRegions then
          s.regionMarks o
        else []
    | _ => []

/-- The faults with which a check fails; a check that succeeds has none. -/
def complaints (s : Session) (tree : Fragment) : Report :=
  match s.check tree with
  | .ok () => []
  | .error report => report

theorem complaints_eq (s : Session) (tree : Fragment) : s.complaints tree = s.faults tree := by
  unfold complaints check Report.toExcept
  cases s.faults tree <;> rfl

theorem check_ok_iff (s : Session) (tree : Fragment) : s.check tree = .ok () ↔ s.complaints tree = [] := by
  rw [complaints_eq]
  unfold check Report.toExcept
  cases s.faults tree <;> simp

end Session

end SkyQuery
