import SkyQuery.Proofs.Rereads.Conditions
import SkyQuery.Grammar.Query

/-!
# Queries are read again

`rereads_subquery`: a query without `WITH` is read again from the words that it was read from. With it
values and conditions are, at any depth.
-/

namespace SkyQuery.Grammar

open Parse

variable {v : Version} {outer : Bool} {d : Nat} {query query' : Parse Query} {start start' : Place}

/-! ### Sources -/

theorem rereads_optionalAlias : Rereads outer v [] d (fun _ => False) optionalAlias optionalAlias id :=
  .eatIf (by nofun) (rereads_identifier.any.bindSame fun _ => rereads_pure rfl id) rereads_eatIdentifier.any

/-- `item'` reads again what `item` reads, at other places, if it is given fewer than `d` words. -/
abbrev RereadsItem (outer : Bool) (v : Version) (d : Nat) (item item' : Parse FromItem) : Prop :=
  Rereads outer v [] d (fun _ => True) item item' FromItem.unplaced

theorem rereads_tableRef (hq : RereadsQuery v d query query') :
    RereadsItem outer v d (tableRef query) (tableRef query') := by
  refine .place fun start start' => .eatIf (by nofun) ?_ ?_
  · refine hq.any.enclosed fun source source' same => .expect (by nofun) (fun _ _ _ _ => ?_) (Nat.le_succ d)
    have label : Rereads outer v [] d (fun _ => False) (do
        let label ← identifier
        return .subquery source label (← spanFrom start)) (do
        let label ← identifier
        return .subquery source' label (← spanFrom start')) FromItem.unplaced := by
      refine rereads_identifier.any.bindSame fun label => rereads_placed fun _ _ => ?_
      simp only [FromItem.unplaced, same]
    exact .eat (by nofun) label label (Nat.le_succ d)
  · refine (rereads_dotted 2).first (fun parts parts' same => ?_) (Nat.le_succ d)
    obtain rfl : parts' = parts := same
    cases TableName.ofParts? parts' with
    | none => exact rereads_unexpected
    | some name => exact rereads_optionalAlias.bindSame fun label => rereads_placed fun _ _ => rfl

theorem rereads_eatSide : Rereads outer v [] d (·.isSome = true) eatSide eatSide id :=
  .eatIf (by nofun) (rereads_pure rfl id) <| .eatIf (by nofun) (rereads_pure rfl id) <|
    .eatIf (by nofun) (rereads_pure rfl id) <| rereads_pure rfl Bool.false_ne_true

theorem rereads_eatJoin : Rereads outer v [] d (·.isSome = true) eatJoin eatJoin id := by
  refine .eatIf (by nofun) (.expect (by nofun) (fun _ _ _ _ => rereads_pure rfl id) (Nat.le_succ d)) ?_
  refine .eatIf (by nofun) (rereads_pure rfl id) ?_
  refine rereads_eatSide.matched (rereads_pure rfl Bool.false_ne_true) fun side => ?_
  have join : Rereads outer v [] d (fun _ => False) (do
      let _ ← expect (.keyword .joinKw)
      return some side) (do
      let _ ← expect (.keyword .joinKw)
      return some side) id := .expect (by nofun) (fun _ _ _ _ => rereads_pure rfl id) (Nat.le_succ d)
  exact .eat (by nofun) join join (Nat.le_succ d)

theorem rereads_joinCondition (hq : RereadsQuery v d query query') :
    Rereads outer v [] d (fun _ => False) (joinCondition query) (joinCondition query') JoinCondition.unplaced := by
  have on : Rereads outer v [] d (fun _ => False) (do return .on (← condition query)) (do return .on (← condition query'))
      JoinCondition.unplaced :=
    (rereads_condition hq).any.bind fun c c' same => rereads_pure (congrArg JoinCondition.on same) id
  refine .eatIf (by nofun) on ?_
  have names : Rereads outer v [] d (fun _ => False) (do
      let _ ← expect .leftParen
      let columns ← commaSeparated identifier
      let _ ← expect .rightParen
      return .sharing columns) (do
      let _ ← expect .leftParen
      let columns ← commaSeparated identifier
      let _ ← expect .rightParen
      return .sharing columns) JoinCondition.unplaced := by
    refine .expect (by nofun) (fun _ _ _ _ => ?_) (Nat.le_succ d)
    refine (rereads_identifier.sepBy (by nofun)).any.bind fun names names' same => ?_
    rw [List.map_id, List.map_id] at same
    subst same
    exact .expect (by nofun) (fun _ _ _ _ => rereads_pure rfl id) (Nat.le_succ d)
  exact .eatIf (by nofun) names rereads_unexpected

theorem rereads_joinTail (hq : RereadsQuery v d query query') {left left' : FromItem}
    (same : left'.unplaced = left.unplaced) :
    Rereads outer v [] d (·.isSome = true) (joinTail query start left) (joinTail query' start' left')
      (Option.map FromItem.unplaced) := by
  have stated {kind : JoinKind} {natural : Bool} {right right' : FromItem} {condition condition' : JoinCondition}
      (sameRight : right'.unplaced = right.unplaced) (sameCondition : condition'.unplaced = condition.unplaced) :
      Rereads outer v [] d (fun _ => False) (do return some (.join left kind natural right condition (← spanFrom start)))
        (do return some (.join left' kind natural right' condition' (← spanFrom start')))
        (Option.map FromItem.unplaced) := by
    refine rereads_placed fun _ _ => ?_
    simp only [Option.map_some, FromItem.unplaced, same, sameRight, sameCondition]
  refine .eatIf (by nofun) (.expect (by nofun) (fun _ _ _ _ => ?_) (Nat.le_succ d)) ?_
  · exact (rereads_tableRef hq).any.bind fun right right' sameRight => stated sameRight rfl
  refine .eat (by nofun) ?_ ?_ (Nat.le_succ d)
  · refine rereads_eatJoin.matched rereads_unexpected fun kind => ?_
    exact (rereads_tableRef hq).any.bind fun right right' sameRight => stated sameRight rfl
  · refine rereads_eatJoin.matched (rereads_pure rfl Bool.false_ne_true) fun kind => ?_
    refine (rereads_tableRef hq).any.bind fun right right' sameRight => ?_
    exact (rereads_joinCondition hq).bind fun condition condition' sameCondition => stated sameRight sameCondition

theorem rereads_fromItem (hq : RereadsQuery v d query query') :
    RereadsItem outer v d (fromItem query) (fromItem query') :=
  .place fun _ _ => (rereads_tableRef hq).loop fun _ _ same => rereads_joinTail hq same

theorem rereads_fromClause (hq : RereadsQuery v d query query') :
    Rereads outer v [] d (fun _ => True) (fromClause query) (fromClause query') (List.map FromItem.unplaced) :=
  .expect (by nofun) (fun _ _ _ _ => ((rereads_fromItem hq).sepBy (by nofun)).any) (Nat.le_succ d)

/-! ### Clauses -/

theorem rereads_rowCount (word : String) : Rereads outer v [] d (fun _ => True) (rowCount word) (rowCount word) id := by
  refine .place fun start start' => .expect (by nofun) (fun t t' _ same => ?_) (Nat.le_succ d)
  rw [show t'.text = t.text from congrArg Prod.snd same]
  dsimp only
  cases digitsBelow? (Nat.pow 2 64) t.text with
  | some n => exact rereads_pure rfl id
  | none => exact .spanFrom fun _ _ => rereads_failAt

/-- The parts of a dotted name that the words of a text go on with, and the words after them. -/
def dottedOf (v : Version) : Nat → List Word → List Identifier × List Word
  | 0, ws => ([], ws)
  | n + 1, p :: w :: ws =>
    if p.1 == .dot && isName v w then
      let others := dottedOf v n ws
      (Identifier.ofText w.2 :: others.1, others.2)
    else ([], p :: w :: ws)
  | _ + 1, ws => ([], ws)

/-- The table of which a text names all columns, and the words after that. -/
def tableStar? (v : Version) : List Word → Option (TableName × List Word)
  | [] => none
  | w :: ws =>
    if isName v w && nextKind ws == .dot then
      match dottedOf v 2 ws with
      | (parts, p :: q :: rest) =>
        if p.1 == .dot && q.1 == .star then
          (TableName.ofParts? (Identifier.ofText w.2 :: parts)).map (·, rest)
        else none
      | _ => none
    else none

theorem dottedFor_shows (n : Nat) {s : State} {ws : List Word} (hs : s.Shows ws) :
    ∃ t ts, dottedFor n v s = .ok ((dottedOf v n ws).1, t) ∧ ws = ts ++ (dottedOf v n ws).2 ∧
      s.Takes ts (dottedOf v n ws).2 t := by
  induction n generalizing s ws with
  | zero => exact ⟨s, [], rfl, rfl, .refl hs⟩
  | succ n ih =>
    have look : (s.current.kind == .dot && isIdentifier v s.second) =
        (nextKind ws == .dot && isName v (ws.tail.headD endWord)) := by
      cases ws with
      | nil => rw [hs.kind]; rfl
      | cons p ws => rw [hs.kind, isIdentifier_eq, hs.secondWord]; rfl
    unfold dottedFor
    rw [look]
    obtain _ | ⟨p, _ | ⟨w, ws⟩⟩ := ws
    · exact ⟨s, [], rfl, rfl, .refl hs⟩
    · exact ⟨s, [], by rw [if_neg (by simp [isName, isIdentifier, endWord])]; rfl, rfl, .refl hs⟩
    · rw [dottedOf]
      by_cases go : (p.1 == .dot && isName v w) = true
      · rw [if_pos go, if_pos (by exact go)]
        obtain ⟨t, ts, ht, cut, takes⟩ := ih hs.advance.advance
        have name : isIdentifier v s.advance.current = true := by
          rw [isIdentifier_eq, hs.advance.current]
          exact (Bool.and_eq_true_iff.1 go).2
        refine ⟨t, p :: w :: ts, ?_, congrArg (p :: w :: ·) cut, (takes.ofAdvance hs.advance).ofAdvance hs⟩
        change (identifier >>= _) v s.advance = _
        rw [bind_eq (identifier_hit name), bind_eq ht]
        rw [show s.advance.current.text = w.2 from congrArg Prod.snd hs.advance.current]
        rfl
      · rw [if_neg go, if_neg (by exact go)]
        exact ⟨s, [], rfl, rfl, .refl hs⟩

theorem dotted_shows (n : Nat) {s : State} {w : Word} {ws : List Word} (hs : s.Shows (w :: ws))
    (name : isName v w = true) :
    ∃ t ts, dotted n v s = .ok (Identifier.ofText w.2 :: (dottedOf v n ws).1, t) ∧ ws = ts ++ (dottedOf v n ws).2 ∧
      s.Takes (w :: ts) (dottedOf v n ws).2 t := by
  obtain ⟨t, ts, ht, cut, takes⟩ := dottedFor_shows n hs.advance
  refine ⟨t, ts, ?_, cut, takes.ofAdvance hs⟩
  have name : isIdentifier v s.current = true := by rw [isIdentifier_eq, hs.current, name]
  rw [dotted, bind_eq (identifier_hit name), bind_eq ht, show s.current.text = w.2 from congrArg Prod.snd hs.current]
  rfl

theorem inside_of_isName {w : Word} (name : isName v w = true) : ¬Stops true w.1 := by
  intro stops
  rw [not_isName w stops] at name
  cases name

/-- Where a dotted name ends depends on the two words after it. -/
theorem dottedOf_local {n : Nat} {whole us : List Word} {parts : List Identifier} {p q : Word}
    (h : dottedOf v n whole = (parts, p :: q :: us)) :
    ∃ ws, whole = ws ++ p :: q :: us ∧ (∀ w ∈ ws, ¬Stops true w.1) ∧
      ∀ rest, dottedOf v n (ws ++ p :: q :: rest) = (parts, p :: q :: rest) := by
  induction n generalizing whole parts with
  | zero =>
    cases h
    exact ⟨[], rfl, List.forall_mem_nil _, fun _ => rfl⟩
  | succ n ih =>
    obtain _ | ⟨w, _ | ⟨u, whole⟩⟩ := whole
    · cases h
    · cases h
    · unfold dottedOf at h
      split at h
      · rename_i go
        obtain ⟨rfl, more⟩ := Prod.mk.inj h
        have rest : dottedOf v n whole = ((dottedOf v n whole).1, p :: q :: us) := Prod.ext rfl more
        obtain ⟨ws, rfl, inside, same⟩ := ih rest
        obtain ⟨point, name⟩ := Bool.and_eq_true_iff.1 go
        refine ⟨w :: u :: ws, rfl, List.forall_mem_cons.2 ⟨?_, List.forall_mem_cons.2 ⟨inside_of_isName name, inside⟩⟩, ?_⟩
        · rw [eq_of_beq point]
          nofun
        · intro rest
          rw [List.cons_append, List.cons_append, dottedOf, if_pos go, same rest]
      · rename_i stop
        cases h
        exact ⟨[], rfl, List.forall_mem_nil _, fun rest => by rw [List.nil_append, dottedOf, if_neg stop]⟩

theorem tableStar?_cons (w : Word) (ws : List Word) :
    tableStar? v (w :: ws) =
      if isName v w && nextKind ws == .dot then
        match dottedOf v 2 ws with
        | (parts, p :: q :: rest) =>
          if p.1 == .dot && q.1 == .star then
            (TableName.ofParts? (Identifier.ofText w.2 :: parts)).map (·, rest)
          else none
        | _ => none
      else none := rfl

theorem tableStar?_local {whole us : List Word} {table : TableName} (h : tableStar? v whole = some (table, us)) :
    ∃ ws, whole = ws ++ us ∧ ws ≠ [] ∧ (∀ w ∈ ws, ¬Stops true w.1) ∧
      ∀ rest, tableStar? v (ws ++ rest) = some (table, rest) := by
  cases whole with
  | nil => cases h
  | cons w whole =>
    rw [tableStar?_cons] at h
    by_cases name : (isName v w && nextKind whole == .dot) = true
    · rw [if_pos name] at h
      split at h
      · rename_i parts p q rest hparts
        by_cases star : (p.1 == .dot && q.1 == .star) = true
        · rw [if_pos star] at h
          obtain ⟨named, hnamed, same⟩ := Option.map_eq_some_iff.1 h
          cases same
          obtain ⟨ws, rfl, inside, same⟩ := dottedOf_local hparts
          obtain ⟨point, asterisk⟩ := Bool.and_eq_true_iff.1 star
          have last : ∀ u ∈ [p, q], ¬Stops true u.1 := by
            rw [List.forall_mem_cons, List.forall_mem_singleton, eq_of_beq point, eq_of_beq asterisk]
            exact ⟨nofun, nofun⟩
          refine ⟨w :: (ws ++ [p, q]), by simp, List.cons_ne_nil _ _, ?_, fun rest => ?_⟩
          · refine List.forall_mem_cons.2 ⟨inside_of_isName (Bool.and_eq_true_iff.1 name).1, ?_⟩
            exact List.forall_mem_append.2 ⟨inside, last⟩
          have next : nextKind (ws ++ p :: q :: rest) = nextKind (ws ++ p :: q :: us) := by cases ws <;> rfl
          have cut : ws ++ [p, q] ++ rest = ws ++ p :: q :: rest := by simp
          rw [List.cons_append, cut, tableStar?_cons, next, if_pos name, same rest]
          simp only [star, if_true, hnamed, Option.map_some]
        · rw [if_neg star] at h
          cases h
      · cases h
    · rw [if_neg name] at h
      cases h

theorem eatTableStar_shows {s : State} {whole : List Word} (hs : s.Shows whole) :
    ∃ t ts, eatTableStar v s = .ok ((tableStar? v whole).map Prod.fst, t) ∧
      whole = ts ++ ((tableStar? v whole).map Prod.snd).getD whole ∧
      s.Takes ts (((tableStar? v whole).map Prod.snd).getD whole) t := by
  cases whole with
  | nil =>
    refine ⟨s, [], ?_, rfl, .refl hs⟩
    unfold eatTableStar
    rw [isIdentifier_eq, hs.word, if_neg (by simp [isName, isIdentifier, endWord])]
    rfl
  | cons w whole =>
    have look : (isIdentifier v s.current && s.second.kind == .dot) = (isName v w && nextKind whole == .dot) := by
      rw [isIdentifier_eq, hs.current, hs.secondKind]
    unfold eatTableStar
    rw [look, tableStar?_cons]
    by_cases name : (isName v w && nextKind whole == .dot) = true
    · obtain ⟨t, ts, ht, cut, takes⟩ := dotted_shows 2 hs (Bool.and_eq_true_iff.1 name).1
      rw [if_pos name, if_pos name, ht]
      generalize dottedOf v 2 whole = found at cut takes ⊢
      obtain ⟨parts, left⟩ := found
      have shows : t.Shows left := takes.shows
      -- What follows the name decides. Where it is no star, the state from before the name is kept.
      match left with
      | [] =>
        refine ⟨s, [], ?_, rfl, .refl hs⟩
        simp [shows.kind, nextKind]
      | [p] =>
        refine ⟨s, [], ?_, rfl, .refl hs⟩
        simp [shows.secondKind, nextKind]
      | p :: q :: rest =>
        have star : (t.current.kind == .dot && t.second.kind == .star) = (p.1 == .dot && q.1 == .star) := by
          rw [shows.kind, shows.secondKind]
          rfl
        dsimp only
        rw [star]
        by_cases here : (p.1 == .dot && q.1 == .star) = true
        · rw [if_pos here, if_pos here]
          cases TableName.ofParts? (Identifier.ofText w.2 :: parts) with
          | none => exact ⟨s, [], rfl, rfl, .refl hs⟩
          | some table =>
            have star : t.Takes [p, q] rest t.advance.advance := ((State.Takes.refl shows.advance.advance).ofAdvance shows.advance).ofAdvance shows
            refine ⟨t.advance.advance, w :: (ts ++ [p, q]), rfl, ?_, takes.trans star⟩
            rw [cut, List.cons_append, List.append_assoc]
            rfl
        · rw [if_neg here, if_neg here]
          exact ⟨s, [], rfl, rfl, .refl hs⟩
    · rw [if_neg name, if_neg name]
      exact ⟨s, [], rfl, rfl, .refl hs⟩

theorem rereads_eatTableStar : Rereads outer v [] d (·.isSome = true) eatTableStar eatTableStar id := by
  intro s whole found t hs h
  have hs : s.Shows whole := hs
  obtain ⟨r, ts, hr, whole_eq, takes⟩ := eatTableStar_shows (v := v) hs
  obtain ⟨rfl, rfl⟩ := Prod.mk.inj (Except.ok.inj (h.symm.trans hr))
  cases star : tableStar? v whole with
  | none =>
    rw [star] at whole_eq takes
    obtain rfl : ts = [] := List.append_cancel_right whole_eq.symm
    refine ⟨[], whole, rfl, takes, fun some => absurd some Bool.false_ne_true, fun rest hrest _ s' hs' => ?_⟩
    have same : tableStar? v rest = none := by
      cases found : tableStar? v rest with
      | none => rfl
      | some r =>
        obtain ⟨ws, rfl, -, inside, again⟩ := tableStar?_local (show tableStar? v rest = some (r.1, r.2) from found)
        obtain ⟨left, rfl⟩ := hrest.within inside
        rw [again] at star
        cases star
    obtain ⟨r', ts', hr', -, takes'⟩ := eatTableStar_shows (v := v) (show s'.Shows rest from hs')
    rw [same] at hr' takes'
    exact ⟨none, r', hr', takes'.shows, rfl⟩
  | some found =>
    rw [star] at whole_eq takes
    obtain ⟨ws, rfl, took, -, again⟩ := tableStar?_local (show tableStar? v whole = some (found.1, found.2) from star)
    obtain rfl : ts = ws := List.append_cancel_right whole_eq.symm
    refine ⟨ts, found.2, rfl, takes, fun _ => took, fun rest _ _ s' hs' => ?_⟩
    obtain ⟨r', ts', hr', -, takes'⟩ := eatTableStar_shows (v := v) (show s'.Shows (ts ++ rest) from hs')
    rw [again rest] at hr' takes'
    exact ⟨some found.1, r', hr', takes'.shows, rfl⟩

theorem rereads_selectItem : Rereads outer v [] d (fun _ => True) selectItem selectItem SelectItem.unplaced := by
  refine .place fun start start' => ?_
  have all : Rereads outer v [] d (fun _ => False) (do return .all (← spanFrom start)) (do return .all (← spanFrom start'))
      SelectItem.unplaced := rereads_placed fun _ _ => rfl
  refine .eatIf (by nofun) all ?_
  refine rereads_eatTableStar.matched ?_ fun table => rereads_placed fun _ _ => rfl
  refine rereads_value.first (fun operand operand' same => ?_) (Nat.le_succ d)
  exact rereads_optionalAlias.bindSame fun label => rereads_pure (congrArg (SelectItem.expr · label) same) id

theorem rereads_distinctness : Rereads outer v [] d (fun _ => False) distinctness distinctness id :=
  .eatIf (by nofun) (rereads_pure rfl id) (.eat (by nofun) (rereads_pure rfl id) (rereads_pure rfl id) (Nat.le_succ d))

theorem rereads_topClause : Rereads outer v [] d (fun _ => False) topClause topClause id :=
  .eatIf (by nofun) ((rereads_rowCount "TOP").any.bindSame fun _ => rereads_pure rfl id) (rereads_pure rfl id)

theorem rereads_selectClause : Rereads outer v [] d (fun _ => True) selectClause selectClause SelectClause.unplaced := by
  refine .place fun start start' => .expect (by nofun) (fun _ _ _ _ => rereads_distinctness.bindSame fun distinct => ?_)
    (Nat.le_succ d)
  refine rereads_topClause.bindSame fun top => ?_
  refine (rereads_selectItem.sepBy (by nofun)).any.bind fun items items' same => ?_
  refine rereads_placed fun _ _ => ?_
  simp only [SelectClause.unplaced, same]

theorem rereads_groupItem : RereadsValue outer v d groupItem groupItem :=
  .version (.ite (fun _ => rereads_columnRef) fun _ => rereads_value)

theorem rereads_groupByClause :
    Rereads outer v [] d (fun _ => True) groupByClause groupByClause (List.map Operand.unplaced) := by
  refine .expect (by nofun) (fun _ _ _ _ => ?_) (Nat.le_succ d)
  exact .expect (by nofun) (fun _ _ _ _ => (rereads_groupItem.sepBy (by nofun)).any) (Nat.le_succ d)

theorem rereads_orderKey : RereadsValue outer v d orderKey orderKey := by
  refine .version (.ite (fun _ => .peek (peeks_sees _) (blind_sees (by nofun)) (fun w integer => ?_) rereads_columnRef) fun _ => rereads_value)
  rw [show (w.1 == _) = true from Bool.ne_false_iff.1 integer]
  refine .place fun start start' => .advance (fun t t' ht ht' => rereads_placed fun _ _ => ?_) (Nat.le_succ d)
  rw [show t'.text = t.text from congrArg Prod.snd (ht'.trans ht.symm)]
  rfl

theorem rereads_direction : Rereads outer v [] d (fun _ => False) direction direction id :=
  .eatIf (by nofun) (rereads_pure rfl id) (.eat (by nofun) (rereads_pure rfl id) (rereads_pure rfl id) (Nat.le_succ d))

theorem rereads_orderItem : Rereads outer v [] d (fun _ => True) orderItem orderItem OrderItem.unplaced := by
  refine .place fun start start' => rereads_orderKey.first (fun expr expr' same => ?_) (Nat.le_succ d)
  refine rereads_direction.bindSame fun descending => rereads_placed fun _ _ => ?_
  simp only [OrderItem.unplaced, same]

theorem rereads_orderByClause :
    Rereads outer v [] d (fun _ => True) orderByClause orderByClause (List.map OrderItem.unplaced) := by
  refine .expect (by nofun) (fun _ _ _ _ => ?_) (Nat.le_succ d)
  exact .expect (by nofun) (fun _ _ _ _ => (rereads_orderItem.sepBy (by nofun)).any) (Nat.le_succ d)

theorem rereads_offsetClause :
    Rereads outer v [] d (fun _ => False) offsetClause offsetClause (Option.map Offset.unplaced) := by
  refine .place fun start start' => .eatIf (by nofun) ?_ (rereads_pure rfl id)
  exact (rereads_rowCount "OFFSET").any.bindSame fun value => rereads_placed fun _ _ => rfl

theorem rereads_optionalClause {α β : Type} (word : Keyword) {clause clause' : Parse (List α)} {view : α → β}
    (h : Rereads false v [] d (fun _ => True) clause clause' (List.map view)) :
    Rereads false v [] d (fun _ => False) (optionalClause word clause) (optionalClause word clause') (List.map view) := by
  refine .peek (peeks_sees _) (blind_sees (by nofun)) (fun w here => ?_) (rereads_pure rfl id)
  rw [show (w.1 == _) = true from Bool.ne_false_iff.1 here]
  exact h.taking fun _ _ _ _ _ => trivial

/-! ### Bodies -/

theorem rereads_optionalCondition (hq : RereadsQuery v d query query') (word : Keyword) :
    Rereads false v [] d (fun _ => False) (optionalCondition query word) (optionalCondition query' word)
      Constraint.eachUnplaced := by
  have found : Rereads false v [] d (fun _ => False) (do return some (← condition query)) (do return some (← condition query'))
      Constraint.eachUnplaced :=
    (rereads_condition hq).any.bind fun c c' same => rereads_pure (congrArg some same) id
  exact .eatIf (by nofun) found (rereads_pure rfl id)

theorem rereads_selectQuery {e : Nat} (hq : RereadsQuery v e query query') (room : d ≤ e + 1) :
    Rereads false v [] d (fun _ => True) (selectQuery query) (selectQuery query') SelectQuery.unplaced := by
  refine .place fun start start' => rereads_selectClause.first (fun clause clause' hclause => ?_) room
  refine (rereads_fromClause hq).any.bind fun source source' hsource => ?_
  refine (rereads_optionalCondition hq .whereKw).bind fun filter filter' hfilter => ?_
  refine (rereads_optionalClause .groupKw rereads_groupByClause).bind fun groupBy groupBy' hgroupBy => ?_
  refine (rereads_optionalCondition hq .havingKw).bind fun having having' hhaving => ?_
  refine rereads_placed fun _ _ => ?_
  simp only [SelectQuery.unplaced, FromItem.allUnplaced_eq_map, hclause, hsource, hfilter, hgroupBy, hhaving]

/-- `body'` reads again what `body` reads, at other places, if it is given fewer than `d` words. -/
abbrev RereadsBody (v : Version) (d : Nat) (body body' : Parse QueryBody) : Prop :=
  Rereads false v [] d (fun _ => True) body body' QueryBody.unplaced

theorem rereads_eatSetOperator (operators : List (Keyword × SetOperator)) :
    Rereads false v [] d (·.isSome = true) (eatSetOperator operators) (eatSetOperator operators) id := by
  induction operators with
  | nil => exact rereads_pure rfl Bool.false_ne_true
  | cons entry others ih => exact .eatIf (by nofun) (rereads_pure rfl id) ih

theorem rereads_combined (operators : List (Keyword × SetOperator)) {item item' : Parse QueryBody}
    (hitem : RereadsBody v d item item') : RereadsBody v d (combined operators item) (combined operators item') := by
  refine .place fun start start' => hitem.loop fun left left' same => ?_
  refine (rereads_eatSetOperator operators).matched (rereads_pure rfl Bool.false_ne_true) fun op => ?_
  have right (all : Bool) : Rereads false v [] d (fun _ => False) (do
      let right ← item
      return some (.set { left, op, all, right, orderBy := [], offset := none, span := ← spanFrom start })) (do
      let right ← item'
      return some (.set { left := left', op, all, right, orderBy := [], offset := none, span := ← spanFrom start' }))
      (Option.map QueryBody.unplaced) := by
    refine hitem.any.bind fun right right' same' => rereads_placed fun _ _ => ?_
    simp only [Option.map_some, QueryBody.unplaced, SetOperation.unplaced, same, same']
  exact .eat (by nofun) (right true) (right false) (Nat.le_succ d)

theorem rereads_queryBody {e : Nat} (hq : RereadsQuery v e query query') (room : d ≤ e + 1) :
    RereadsBody v d (queryBody query) (queryBody query') := by
  have single : RereadsBody v d (do return .select (← selectQuery query)) (do return .select (← selectQuery query')) :=
    (rereads_selectQuery hq room).first (fun q q' same => rereads_pure (congrArg QueryBody.select same) id) (Nat.le_succ d)
  exact rereads_combined _ (rereads_combined _ single)

theorem finish_unplaced {body body' : QueryBody} {orderBy orderBy' : List OrderItem} {offset offset' : Option Offset}
    {span span' : Option Span} (hbody : body'.unplaced = body.unplaced)
    (horder : orderBy'.map OrderItem.unplaced = orderBy.map OrderItem.unplaced)
    (hoffset : offset'.map Offset.unplaced = offset.map Offset.unplaced) :
    (finish orderBy' offset' span' body').unplaced = (finish orderBy offset span body).unplaced := by
  cases body with
  | select q =>
    cases body' with
    | set o' => cases hbody
    | select q' =>
      have same : q'.unplaced = q.unplaced := QueryBody.select.inj hbody
      cases q
      cases q'
      simp only [SelectQuery.unplaced, SelectQuery.mk.injEq] at same
      simp only [finish, QueryBody.unplaced, SelectQuery.unplaced, same, horder, hoffset]
  | set o =>
    cases body' with
    | select q' => cases hbody
    | set o' =>
      have same : o'.unplaced = o.unplaced := QueryBody.set.inj hbody
      cases o
      cases o'
      simp only [SetOperation.unplaced, SetOperation.mk.injEq] at same
      simp only [finish, QueryBody.unplaced, SetOperation.unplaced, same, horder, hoffset]

theorem rereads_orderedBody {e : Nat} (hq : RereadsQuery v e query query') (room : d ≤ e + 1) :
    RereadsBody v d (orderedBody query) (orderedBody query') := by
  refine .place fun start start' => (rereads_queryBody hq room).first (fun body body' hbody => ?_) (Nat.le_succ d)
  refine (rereads_optionalClause .orderKw rereads_orderByClause).bind fun orderBy orderBy' horder => ?_
  refine rereads_offsetClause.bind fun offset offset' hoffset => rereads_placed fun _ _ => ?_
  exact finish_unplaced hbody horder hoffset

theorem rereads_subqueryFor (n m : Nat) : RereadsQuery v m (subqueryFor n) (subqueryFor m) := by
  induction n generalizing m with
  | zero => exact rereads_unexpected
  | succ n ih =>
    have read (m : Nat) : RereadsQuery v (m + 1) (subqueryFor (n + 1)) (subqueryFor (m + 1)) := by
      refine .place fun start start' => (rereads_orderedBody (ih m) (Nat.le_refl _)).first (fun body body' same => ?_)
        (Nat.le_succ _)
      refine rereads_placed fun _ _ => ?_
      simp only [Query.unplaced, WithItem.allUnplaced, same]
    cases m with
    | zero => exact (read 0).vacuous
    | succ m => exact read m

theorem rereads_subqueryAt (n : Nat) : RereadsQuery v d (subqueryFor n) subquery :=
  .ofBounded fun m => (rereads_subqueryFor n m).shorter (Nat.min_le_right d m)

theorem rereads_subquery : RereadsQuery v d subquery subquery := fun s => rereads_subqueryAt s.bound s

end SkyQuery.Grammar
