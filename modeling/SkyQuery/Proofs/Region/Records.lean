import SkyQuery.Proofs.Region.Equality
import SkyQuery.Region.Record

/-!
# Records of regions

`Region.record` is how a region is stored. Whatever makes records makes those of the regions that its counterpart
makes, and complains as that does: `RegionRecord.parse_eq` for texts, `ofOperand_eq` for operands, `polygonOf_eq` and
`combinationOf_eq` for the constructors that can refuse. Nothing of a region is lost in its record, which is walked,
written and compared as the region is (`walk_record`, `render_record`, `same_record`). So what is proved of regions
holds of what is stored.
-/

namespace SkyQuery

open Vocabulary

/-! ### Coordinate systems -/

def CoordSys.record (c : CoordSys) : SysRecord := ⟨c.frame, c.refPos, c.flavor⟩

theorem CoordSys.record_injective : Function.Injective CoordSys.record := by
  rintro ⟨frame, refPos, flavor, h⟩ ⟨frame', refPos', flavor', h'⟩ same
  cases same
  rfl

namespace SysRecord

theorem isDefault_record (c : CoordSys) : c.record.isDefault = c.isDefault := by
  obtain ⟨frame, refPos, flavor, h⟩ := c
  apply Bool.eq_iff_iff.2
  simp only [CoordSys.record, isDefault, CoordSys.isDefault, CoordSys.default, unstated, Bool.and_eq_true, beq_iff_eq,
    CoordSys.mk.injEq, and_assoc]

theorem new_eq (frame : Frame) (refPos : RefPos) (flavor : Flavor) :
    new frame refPos flavor = (CoordSys.ofParts frame refPos flavor).map CoordSys.record := by
  unfold new CoordSys.ofParts
  by_cases fits : flavor.isCartesian = true → frame = .unknown ∧ refPos = .unknown
  · rw [dif_pos fits, if_neg]
    · rfl
    · simpa [unstated] using fits
  · rw [dif_neg fits, if_pos]
    · rfl
    · simpa [unstated, imp_iff_not_or] using fits

theorem ofWords_eq (words : List String) :
    ofWords words = (CoordSys.ofWords words).map fun q => (q.1.record, q.2) := by
  unfold ofWords CoordSys.ofWords
  simp only [new_eq]
  cases CoordSys.ofParts _ _ _ <;> rfl

theorem parse_eq (text : String) : parse text = (CoordSys.parse text).map CoordSys.record := by
  unfold parse CoordSys.parse
  rw [ofWords_eq]
  cases CoordSys.ofWords (Text.words text) with
  | error d => rfl
  | ok q =>
    obtain ⟨c, _ | ⟨word, rest⟩⟩ := q
    · rfl
    · rfl

theorem ofOperand_eq (o : Operand) : ofOperand o = (CoordSys.ofOperand o).map CoordSys.record := by
  unfold ofOperand CoordSys.ofOperand
  cases o.asString? with
  | none => rfl
  | some text =>
    dsimp only
    rw [parse_eq]
    cases CoordSys.parse text <;> rfl

end SysRecord

/-! ### Regions -/

namespace Region

mutual

/-- The record that a region is stored as. -/
def record : Region → RegionRecord
  | .position sys p => .position sys.record p
  | .circle sys centre radius => .circle sys.record centre radius
  | .box sys centre width height => .box sys.record centre width height
  | .polygon sys first second third others => .shape .polygon sys.record (first :: second :: third :: others)
  | .combination op sys first second others =>
    { RegionRecord.shape op.kind sys.record [] with regions := first.record :: second.record :: recordAll others }
  | .not inner => .negation inner.record

def recordAll : List Region → List RegionRecord
  | [] => []
  | r :: rest => r.record :: recordAll rest

end

theorem recordAll_eq_map (rs : List Region) : recordAll rs = rs.map record := by
  induction rs with
  | nil => rfl
  | cons r rest ih => rw [recordAll, ih, List.map_cons]

/-- What a region shows is what its record stores. -/
theorem record_eq (r : Region) :
    r.record = ⟨r.kind, r.sys?.map CoordSys.record, r.points, r.radius, r.width, r.height, r.members.map record⟩ := by
  cases r with
  | combination op sys first second others =>
    rw [record, recordAll_eq_map]
    rfl
  | _ => rw [record]; rfl

end Region

namespace RegionRecord

theorem walkAll_eq_flatMap (rs : List RegionRecord) : walkAll rs = rs.flatMap walk := by
  induction rs with
  | nil => rfl
  | cons r rest ih => rw [walkAll, ih, List.flatMap_cons]

theorem walk_eq (r : RegionRecord) : r.walk = r :: r.regions.flatMap walk := by
  cases r
  rw [walk, walkAll_eq_flatMap]

theorem walk_record (r : Region) : r.record.walk = r.walk.map Region.record := by
  induction r using Region.byMembers with
  | step r ih =>
    have regions : r.record.regions = r.members.map Region.record := by rw [Region.record_eq]
    rw [walk_eq, Region.walk_eq, regions, List.flatMap_map, List.flatMap_congr ih, List.map_append, List.map_flatMap]
    rfl

theorem polygonOf_eq (sys : CoordSys) (vertices : List Point) :
    polygonOf sys.record vertices = (Region.polygonOf sys vertices).map Region.record := by
  rcases vertices with _ | ⟨first, _ | ⟨second, _ | ⟨third, others⟩⟩⟩
  · rfl
  · rfl
  · rfl
  · exact if_neg (by simp)

theorem combinationOf_eq (op : Combination) (sys : CoordSys) (members : List Region) :
    combinationOf op sys.record (members.map Region.record) = (Region.combinationOf op sys members).map Region.record := by
  rcases members with _ | ⟨first, _ | ⟨second, others⟩⟩
  · rfl
  · rfl
  · rw [combinationOf, if_neg (by simp)]
    simp [Region.combinationOf, Except.map, Region.record, Region.recordAll_eq_map]

/-! ### Written forms -/

theorem numbers_record (r : Region) : r.record.numbers = r.numbers := by
  cases r with
  | combination op => cases op <;> rw [Region.record] <;> rfl
  | _ => rw [Region.record]; rfl

theorem renderSys_record (sys : CoordSys) : renderSys (some sys.record) = Region.renderSys sys := by
  rw [renderSys, SysRecord.isDefault_record]
  rfl

theorem opening (text : String) : " (" ++ (" " ++ text) = " ( " ++ text := by
  rw [← String.append_assoc]
  rfl

/-- A record whose kind is that of a shape is written with its numbers. -/
theorem renderStcs_shape {r : RegionRecord} (shape : r.kind.function?.isSome = true) :
    r.renderStcs = r.kind.word ++ renderSys r.sys ++ (" " ++ Region.renderNumbers r.numbers) := by
  obtain ⟨kind, sys, points, radius, width, height, regions⟩ := r
  cases kind with
  | union | intersection | not => cases shape
  | position | circle | box | polygon => rfl

mutual

theorem renderStcs_record (r : Region) : r.record.renderStcs = r.renderStcs := by
  cases r with
  | combination op sys first second others =>
    have nested := renderMembers_record others
    have first := renderStcs_record first
    have second := renderStcs_record second
    cases op <;>
      simp only [Region.record, shape, renderStcs, Region.renderStcs, Combination.kind, renderSys_record,
        renderMembers, first, second, nested, String.append_assoc, opening]
  | not inner =>
    have inner := renderStcs_record inner
    simp only [Region.record, negation, renderStcs, Region.renderStcs, renderSys, renderMembers, inner,
      String.append_assoc, opening, String.append_empty]
  | _ =>
    rw [renderStcs_shape (by rw [Region.record_eq]; rfl), numbers_record, Region.record_eq]
    simp only [Region.kind, Region.sys?, Option.map_some, renderSys_record, Region.renderStcs, String.append_assoc]

theorem renderMembers_record (rs : List Region) : renderMembers (Region.recordAll rs) = Region.renderMembers rs := by
  cases rs with
  | nil => rfl
  | cons r rest => rw [Region.recordAll, renderMembers, Region.renderMembers, renderStcs_record, renderMembers_record]

end

theorem renderDali?_record (r : Region) : r.record.renderDali? = r.renderDali? := by
  unfold renderDali?
  rw [numbers_record, Region.record_eq]
  cases r with
  | combination op => cases op <;> rfl
  | _ => simp [Region.kind, Region.sys?, SysRecord.isDefault_record, Region.renderDali?]

theorem render_record (r : Region) : r.record.render = r.render := by
  rw [render, Region.render, renderDali?_record, renderStcs_record]

theorem sameAll_iff {rs rs' : List RegionRecord} :
    sameAll rs rs' = true ↔ List.Forall₂ (fun r r' => same r r' = true) rs rs' := by
  induction rs generalizing rs' with
  | nil => cases rs' <;> simp [sameAll]
  | cons r rs ih =>
    cases rs' with
    | nil => simp [sameAll]
    | cons r' rs' => rw [sameAll, Bool.and_eq_true, ih, List.forall₂_cons]

theorem forall₂_congr_left {α β : Type} {R S : α → β → Prop} {as : List α} {bs : List β}
    (h : ∀ a ∈ as, ∀ b, R a b ↔ S a b) : List.Forall₂ R as bs ↔ List.Forall₂ S as bs := by
  induction as generalizing bs with
  | nil => simp
  | cons a as ih =>
    cases bs with
    | nil => simp
    | cons b bs =>
      rw [List.forall₂_cons, List.forall₂_cons, h a List.mem_cons_self b,
        ih fun a member => h a (List.mem_cons_of_mem _ member)]

theorem same_record (a b : Region) : a.record.same b.record = a.same b := by
  induction a using Region.byMembers generalizing b with
  | step a ih =>
    have systems : a.sys?.map CoordSys.record = b.sys?.map CoordSys.record ↔ a.sys? = b.sys? :=
      (Option.map_injective CoordSys.record_injective).eq_iff
    have members :
        List.Forall₂ (fun r r' => same r r' = true) (a.members.map Region.record) (b.members.map Region.record) ↔
          List.Forall₂ (fun r r' => Region.same r r' = true) a.members b.members := by
      rw [List.forall₂_map_left_iff, List.forall₂_map_right_iff]
      exact forall₂_congr_left fun m member r => by rw [ih m member r]
    apply Bool.eq_iff_iff.2
    rw [Region.same_iff, Region.record_eq, Region.record_eq, same]
    simp only [Bool.and_eq_true, beq_iff_eq, Region.samePoints_iff, sameAll_iff, systems, members, and_assoc]

/-! ### Reading -/

open Region (Reader)

theorem system_eq : system = CoordSys.record <$> Region.system := by
  funext words
  rw [system, SysRecord.ofWords_eq]
  change _ = Region.system words >>= _
  unfold Region.system
  cases CoordSys.ofWords words <;> rfl

theorem membersFor_map {ρ σ : Type} (f : ρ → σ) (region : Reader ρ) (n : Nat) :
    Region.membersFor (f <$> region) n = List.map f <$> Region.membersFor region n := by
  induction n with
  | zero => rfl
  | succ n ih =>
    unfold Region.membersFor
    simp only [ih, map_bind, bind_map_left]
    congr 1
    funext words
    split
    · rfl
    · split
      · rfl
      · simp

theorem bounded_map {α β : Type} (f : α → β) (p : Nat → Reader α) :
    Region.bounded (fun n => f <$> p n) = f <$> Region.bounded p := rfl

theorem fault_map {α β : Type} (f : α → β) (message : String) :
    f <$> (Region.fault message : Reader α) = Region.fault message := rfl

theorem made_combination (op : Combination) (sys : CoordSys) (first second : Region) (others : List Region) :
    made (combinationOf op sys.record (first.record :: second.record :: others.map Region.record)) =
      pure (Region.combination op sys first second others).record := by
  have ok := combinationOf_eq op sys (first :: second :: others)
  rw [List.map_cons, List.map_cons] at ok
  rw [ok]
  rfl

theorem made_polygon (sys : CoordSys) (first second third : Point) (others : List Point) :
    made (polygonOf sys.record (first :: second :: third :: others)) =
      pure (Region.polygon sys first second third others).record := by
  rw [polygonOf_eq]
  rfl

theorem combinationBody_eq (region : Reader Region) (op : Combination) :
    combinationBody (Region.record <$> region) op = Region.record <$> Region.combinationBody region op := by
  have members : Region.membersFor (Region.record <$> region) =
      fun n => List.map Region.record <$> Region.membersFor region n := funext (membersFor_map _ _)
  unfold combinationBody Region.combinationBody
  simp only [system_eq, members, bounded_map, map_bind, bind_map_left, map_pure, made_combination]

theorem body_eq (region : Reader Region) (k : RegionKind) :
    body (Region.record <$> region) k = Region.record <$> Region.body region k := by
  cases k with
  | union => exact combinationBody_eq region .union
  | intersection => exact combinationBody_eq region .intersection
  | _ => simp only [body, Region.body, system_eq, map_bind, bind_map_left, map_pure, made_polygon] <;> rfl

theorem stcsFor_eq (n : Nat) : stcsFor n = Region.record <$> Region.stcsFor n := by
  induction n with
  | zero => rfl
  | succ n ih =>
    rw [stcsFor, Region.stcsFor, ih, map_bind]
    congr 1
    funext words
    cases words with
    | nil => rfl
    | cons word rest =>
      dsimp only
      cases RegionKind.ofWord? word with
      | none => rfl
      | some k => simp only [body_eq, map_bind]

theorem stcs_eq : stcs = Region.record <$> Region.stcs := by
  have read : (fun words => stcsFor (words.length + 1) words : Reader RegionRecord) =
      (Region.record <$> Region.bounded fun n => Region.stcsFor (n + 1) : Reader RegionRecord) := by
    rw [← bounded_map]
    simp only [← stcsFor_eq]
    rfl
  rw [stcs, Region.stcs, read, map_bind, bind_map_left]
  congr 1
  funext r
  rw [map_bind]
  congr 1
  funext words
  cases words with
  | nil => rfl
  | cons word rest =>
    dsimp only
    rw [renderStcs_record, fault_map]

theorem readDali_eq (words : List String) : readDali words = (Region.readDali words).map Region.record := by
  unfold readDali Region.readDali
  cases words.isEmpty with
  | true => rfl
  | false =>
    rw [if_neg Bool.false_ne_true, if_neg Bool.false_ne_true]
    rcases words.mapM Decimal.readFinite with _ | _ | ⟨x, _ | ⟨y, _ | ⟨radius, _ | ⟨z, others⟩⟩⟩⟩
    · rfl
    · rfl
    · rfl
    · rfl
    · rfl
    · dsimp only
      split
      · exact polygonOf_eq .default _
      · rfl

theorem parse_eq (text : String) : parse text = (Region.parse text).map Region.record := by
  unfold parse Region.parse
  dsimp only
  split
  · rw [stcs_eq]
    change (Region.stcs _ >>= _).map _ = _
    cases Region.stcs (Region.cut text) <;> rfl
  · exact readDali_eq _

/-! ### Calls -/

theorem sysOf_eq (sys : Option Operand) : sysOf sys = (Region.sysOf sys).map CoordSys.record := by
  cases sys with
  | none => rfl
  | some o => exact SysRecord.ofOperand_eq o

theorem ofPoint_eq (sys : Option Operand) (args : List Operand) :
    ofPoint sys args = (Region.pointOf sys args).map fun q => position q.1.record q.2 := by
  unfold ofPoint Region.pointOf
  rw [sysOf_eq]
  cases Region.sysOf sys with
  | error d => rfl
  | ok c => cases Region.twoNumbers args <;> rfl

theorem centreOf_eq (sys : Option Operand) (args : List Operand) :
    centreOf sys args = refuse ((Region.centreOf sys args).map fun q => (q.1.record, q.2)) := by
  unfold centreOf Region.centreOf
  cases args.head?.bind Region.asPoint? with
  | some point =>
    obtain ⟨pointSys, coordinates⟩ := point
    dsimp only
    rw [ofPoint_eq]
    cases Region.pointOf pointSys coordinates with
    | error d => rfl
    | ok q =>
      cases sys with
      | none => rfl
      | some o =>
        dsimp only
        rw [SysRecord.ofOperand_eq]
        cases CoordSys.ofOperand o <;> rfl
  | none =>
    dsimp only
    rw [sysOf_eq]
    cases Region.sysOf sys with
    | error d => rfl
    | ok c => cases Region.twoNumbers args <;> rfl

/-- The vertices are those of the points, after those that are collected already. -/
theorem verticesOf_eq (own : Bool) (sys : CoordSys) (vertices : List Point) (args : List Operand) :
    verticesOf own sys.record vertices args = refuse ((Region.verticesOf args).map fun qs =>
      ((if !own && vertices.isEmpty then (qs.head?.map (·.1)).getD sys else sys).record, vertices ++ qs.map (·.2))) := by
  induction args generalizing sys vertices with
  | nil => simp [verticesOf, Region.verticesOf, refuse, Except.map, Except.mapError]
  | cons o rest ih =>
    unfold verticesOf Region.verticesOf
    cases Region.asPoint? o with
    | none => rfl
    | some point =>
      obtain ⟨pointSys, coordinates⟩ := point
      dsimp only
      rw [ofPoint_eq]
      cases Region.pointOf pointSys coordinates with
      | error d => rfl
      | ok q =>
        have next : (if !own && vertices.isEmpty then q.1.record else sys.record) =
          (if !own && vertices.isEmpty then q.1 else sys).record := (apply_ite CoordSys.record _ _ _).symm
        change verticesOf own (if !own && vertices.isEmpty then q.1.record else sys.record) (vertices ++ [q.2]) rest = _
        rw [next, ih]
        cases Region.verticesOf rest with
        | error d => rfl
        | ok qs => simp [refuse, Except.map, Except.mapError, bind, Except.bind, pure, Except.pure]

theorem polygonOfArgs_eq (sys : Option Operand) (args : List Operand) :
    polygonOfArgs sys args = refuse ((Region.polygonOfArgs sys args).map Region.record) := by
  unfold polygonOfArgs Region.polygonOfArgs
  rw [sysOf_eq]
  cases Region.sysOf sys with
  | error d => rfl
  | ok own =>
    change (if _ then _ else _) = refuse (Except.map Region.record (if _ then _ else _))
    split
    · rw [verticesOf_eq]
      cases Region.verticesOf args with
      | error d => rfl
      | ok vertices =>
        change refuse (polygonOf (CoordSys.record _) ([] ++ _)) = _
        rw [polygonOf_eq, List.nil_append]
        cases sys <;> rfl
    · split
      · rfl
      · cases Region.coordinatesOf args with
        | error d => rfl
        | ok vertices => exact congrArg refuse (polygonOf_eq own vertices)

theorem ofLiteral_eq (args : List Operand) : ofLiteral args = (Region.ofLiteral args).map Region.record := by
  rcases args with _ | ⟨arg, _ | ⟨other, rest⟩⟩
  · rfl
  · unfold ofLiteral Region.ofLiteral
    dsimp only
    cases arg.asString? with
    | none => rfl
    | some text =>
      dsimp only
      rw [parse_eq]
      cases Region.parse text <;> rfl
  · rfl

theorem ofCall_eq (fn : GeometryFn) (sys : Option Operand) (args : List Operand) :
    ofCall fn sys args = refuse ((Region.ofCall fn sys args).map Region.record) := by
  cases fn with
  | point =>
    dsimp only [ofCall, Region.ofCall]
    rw [ofPoint_eq]
    cases Region.pointOf sys args <;> rfl
  | circle =>
    dsimp only [ofCall, Region.ofCall]
    rw [centreOf_eq]
    cases Region.centreOf sys args with
    | error d => rfl
    | ok q =>
      obtain ⟨c, p, lengths⟩ := q
      change (refuse (Region.oneNumber lengths) >>= _) = refuse (Except.map _ (Region.oneNumber lengths >>= _))
      cases Region.oneNumber lengths <;> rfl
  | box =>
    dsimp only [ofCall, Region.ofCall]
    rw [centreOf_eq]
    cases Region.centreOf sys args with
    | error d => rfl
    | ok q =>
      obtain ⟨c, p, lengths⟩ := q
      change (refuse (Region.twoNumbers lengths) >>= _) = refuse (Except.map _ (Region.twoNumbers lengths >>= _))
      cases Region.twoNumbers lengths <;> rfl
  | polygon => exact polygonOfArgs_eq sys args
  | region => exact congrArg refuse (ofLiteral_eq args)
  | _ => rfl

theorem ofOperand_eq (o : Operand) : ofOperand o = refuse ((Region.ofOperand o).map Region.record) := by
  cases o with
  | wrapped inner span => exact ofOperand_eq inner
  | geometry fn sys args span =>
    change (ofCall fn sys args).mapError _ = refuse (((Region.ofCall fn sys args).mapError _).map _)
    rw [ofCall_eq]
    cases Region.ofCall fn sys args <;> rfl
  | _ => rfl

end RegionRecord

end SkyQuery
