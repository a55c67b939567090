import SkyQuery.Proofs.RoundTrip.Queries
import SkyQuery.Proofs.RoundTrip.QuerySpelling
import SkyQuery.Proofs.WellFormed.Texts

/-!
# Printed texts read back

`Entry.read_render`: what is read from any text, be it a query or one clause, is printed as a text
that is read as the same tree, at other places only. The words that are read as names of columns are
those that the tables of reserved words leave (`isRegular_iff_readSelect`).
-/

namespace SkyQuery

open Grammar Parse

variable {v : Version} {text : String}

/-- The text of a query or of one of its clauses. -/
def Fragment.render : Fragment → String
  | .query q => q.render
  | .select c => c.render
  | .source items => "FROM " ++ commaList (items.map FromItem.render)
  | .filter condition => "WHERE " ++ condition.render
  | .orderBy items => "ORDER BY " ++ commaList (items.map OrderItem.render)
  | .groupBy items => "GROUP BY " ++ commaList (items.map Operand.render)

/-- What is read without the places where it stands. -/
def Fragment.unplaced : Fragment → Fragment
  | .query q => .query q.unplaced
  | .select c => .select c.unplaced
  | .source items => .source (items.map FromItem.unplaced)
  | .filter condition => .filter condition.unplaced
  | .orderBy items => .orderBy (items.map OrderItem.unplaced)
  | .groupBy items => .groupBy (items.map Operand.unplaced)

theorem Fragment.render_unplaced (f : Fragment) : f.unplaced.render = f.render := by
  have list {α : Type} {render : α → String} {view : α → α} (h : ∀ a, render (view a) = render a) (as : List α) :
      (as.map view).map render = as.map render := by
    rw [List.map_map]
    exact List.map_congr_left fun a _ => h a
  cases f with
  | query q => exact q.render_unplaced
  | select c => exact c.render_unplaced
  | source items => simp only [Fragment.unplaced, Fragment.render, list FromItem.render_unplaced]
  | filter condition => simp only [Fragment.unplaced, Fragment.render, condition.render_unplaced]
  | orderBy items => simp only [Fragment.unplaced, Fragment.render, list OrderItem.render_unplaced]
  | groupBy items => simp only [Fragment.unplaced, Fragment.render, list Operand.render_unplaced]

namespace Grammar

/-! ### Whole texts -/

theorem State.ofTokens_shows {tokens : List Token} {ws : List Word} (h : tokens.map Token.word = ws ++ [endWord]) :
    (State.ofTokens tokens).Shows ws := by
  cases tokens with
  | nil => cases ws <;> cases h
  | cons t rest => exact h

theorem whole_reads {α : Type} {p : Parse α} {ws : List Word} {P : α → Prop} (h : Reads v p ws [] P) :
    Reads v (whole p) ws [] P := by
  refine h.close fun a ha => .skip (by nofun) (.sees (.iteTrue rfl (reads_pure ha)))

theorem readWhole_of_scan {α : Type} {p : Parse α} {ws : List Word} {P : α → Prop} (cut : scan v text.toList = some ws)
    (reads : Reads v p ws [] P) : ∃ a, readWhole p v text = .ok a ∧ P a := by
  obtain ⟨tokens, htokens, words⟩ := tokensFor_of_scan cut
  have shows := State.ofTokens_shows words
  rw [← List.append_nil ws] at shows
  obtain ⟨a, t, ha, -, hP⟩ := whole_reads reads _ shows
  exact ⟨a, readWhole_ok_iff.2 ⟨tokens, t, htokens, ha⟩, hP⟩

theorem readWhole_reads {α : Type} {p : Parse α} {ws : List Word} {P : α → Prop} (spells : Spells v text ws)
    (reads : Reads v p ws [] P) : ∃ a, readWhole p v text = .ok a ∧ P a := by
  have cut : scan v text.toList = some ws := by
    have := spells [] Lexer.separates_nil
    rwa [List.append_nil, scan_nil, Option.map_some, List.append_nil] at this
  exact readWhole_of_scan cut reads

/-- The words of a text end where nothing is next. -/
theorem nil_of_ended {s : State} {cs : List Char} {ws us : List Word} (cut : scan v cs = some ws)
    (left : us <:+ ws) (hs : s.Shows us) (ended : s.current.kind = .endOfText) : us = [] := by
  obtain _ | ⟨w, us⟩ := us
  · rfl
  · exact absurd (hs.kind.symm.trans ended) (ne_end_of_scan cut w (left.subset List.mem_cons_self))

/-- After a whole text stands its end, or a semicolon and its end. -/
theorem whole_ok {α : Type} {p : Parse α} {s t : State} {a : α} (h : whole p v s = .ok (a, t)) :
    ∃ r, p v s = .ok (a, r) ∧
      (r.current.kind = .endOfText ∨ r.current.kind = .semicolon ∧ r.advance.current.kind = .endOfText) := by
  obtain ⟨b, r, hread, h⟩ := bind_ok h
  rcases eat_ok h with ⟨semicolon, h⟩ | ⟨-, h⟩
  · obtain ⟨ended, h⟩ := expect_ok h
    cases h
    exact ⟨r, hread, .inr ⟨semicolon, ended⟩⟩
  · obtain ⟨seen, r', hsees, h⟩ := bind_ok h
    cases hsees
    split at h
    · rename_i ended
      cases h
      exact ⟨r, hread, .inl (eq_of_beq ended)⟩
    · cases h

/-- Where the last word of a text is no semicolon, nothing is left where the text has ended. -/
theorem nil_of_closed {s : State} {cs : List Char} {us left : List Word} (cut : scan v cs = some (us ++ left))
    (closes : ∀ w ∈ (us ++ left).getLast?, w.1 ≠ .semicolon) (hs : s.Shows left)
    (ended : s.current.kind = .endOfText ∨ s.current.kind = .semicolon ∧ s.advance.current.kind = .endOfText) :
    left = [] := by
  rcases ended with ended | ⟨semicolon, ended⟩
  · exact nil_of_ended cut (List.suffix_append us left) hs ended
  · obtain _ | ⟨w, left⟩ := left
    · rfl
    have next : s.advance.Shows left := hs.advance
    obtain rfl := nil_of_ended cut ((List.suffix_cons w left).trans (List.suffix_append us _)) next ended
    exact absurd (hs.kind.symm.trans semicolon) (closes w (by simp))

/-- What a reader reads from a text is read again from what is printed, if its words are. -/
theorem readWhole_again {α : Type} {p : Parse α} {P : α → Prop} {wrap : α → Fragment} {f : Fragment}
    {words : α → List Word} (yields : Yields v p P) (spells : ∀ a, P a → Spells v (wrap a).render (words a))
    (reads : ∀ a, P a → Reads v p (words a) [] fun b => (wrap b).unplaced = (wrap a).unplaced)
    (h : (readWhole p v text).map wrap = .ok f) :
    ∃ g, (readWhole p v f.render).map wrap = .ok g ∧ g.unplaced = f.unplaced := by
  cases hread : readWhole p v text with
  | error e => rw [hread] at h; cases h
  | ok a =>
    rw [hread] at h
    cases h
    have ha := readWhole_ok yields hread
    obtain ⟨b, hb, same⟩ := readWhole_reads (spells a ha) (reads a ha)
    exact ⟨wrap b, by rw [hb]; rfl, same⟩

/-! ### Clauses as texts of their own -/

theorem whereClause_yields : Yields v whereClause (Constraint.WellFormed v) :=
  (yields_expect _).bind fun _ _ => condition_yields subquery_yields

theorem spells_fromClause {items : List FromItem} (h : ∀ item ∈ items, item.WellFormed v) :
    Spells v ("FROM " ++ commaList (items.map FromItem.render)) (sourceWords items) := by
  have word : Opens v "FROM " [keywordWord .fromKw] := (opens_keyword (k := .fromKw) rfl).as rfl
  exact word.spell (spells_commaList items fun item member => FromItem.spells (h item member))

theorem spells_whereClause {c : Constraint} (h : c.WellFormed v) :
    Spells v ("WHERE " ++ c.render) (keywordWord .whereKw :: c.words) := by
  have word : Opens v "WHERE " [keywordWord .whereKw] := (opens_keyword (k := .whereKw) rfl).as rfl
  exact word.spell (Constraint.spells h)

/-- The words `first` and `BY` at the start of a text, and then a list. -/
theorem spells_byClause {α : Type} {start : String} (first : Keyword) {text : α → String} {words : α → List Word}
    (literal : start = first.text ++ " " ++ (Keyword.byKw.text ++ " ")) (known : first.availableIn v = true)
    (as : List α) (h : ∀ a ∈ as, Spells v (text a) (words a)) :
    Spells v (start ++ commaList (as.map text))
      (keywordWord first :: keywordWord .byKw :: joined commaWord (as.map words)) := by
  have opened := (opens_keyword known).open (opens_keyword (v := v) (k := .byKw) rfl)
  exact (opened.as literal).spell (spells_commaList as h)

theorem fromClause_again {items : List FromItem} (h : items ≠ [] ∧ ∀ item ∈ items, item.WellFormed v) :
    Reads v (fromClause subquery) (sourceWords items) []
      fun found => found.map FromItem.unplaced = items.map FromItem.unplaced :=
  fromClause_reads (subquery_readsBack _) h.1 h.2 (Nat.le_refl _) (Nat.zero_le _)

end Grammar

/-- What is read from a text, as a query or as one of its clauses, is read again from the text that
is printed for it, at other places only; it is then printed alike. -/
theorem Entry.read_render {entry : Entry} {f : Fragment} (h : entry.read v text = .ok f) :
    ∃ g, entry.read v f.render = .ok g ∧ g.unplaced = f.unplaced ∧ g.render = f.render := by
  suffices again : ∃ g, entry.read v f.render = .ok g ∧ g.unplaced = f.unplaced by
    obtain ⟨g, hg, same⟩ := again
    exact ⟨g, hg, same, by rw [← g.render_unplaced, same, f.render_unplaced]⟩
  cases entry with
  | query =>
    refine readWhole_again query_yields (fun q hq => Query.spells hq) (fun q hq => ?_) h
    exact (query_reads hq rfl).mono fun _ same => congrArg Fragment.query same
  | select =>
    refine readWhole_again selectClause_yields (fun c hc => SelectClause.spells hc) (fun c hc => ?_) h
    exact (selectClause_reads hc (Nat.zero_le _)).mono fun _ same => congrArg Fragment.select same
  | source =>
    refine readWhole_again (fromClause_yields subquery_yields) (fun items hitems => spells_fromClause hitems.2)
      (fun items hitems => (fromClause_again hitems).mono fun _ same => congrArg Fragment.source same) h
  | filter =>
    refine readWhole_again whereClause_yields (fun c hc => spells_whereClause hc) (fun c hc => ?_) h
    have read : Reads v (condition subquery) c.words [] (·.unplaced = c.unplaced) :=
      condition_reads (subquery_readsBack _) hc (Nat.le_refl _) (Nat.zero_le _)
    exact .expect fun _ _ => read.mono fun _ same => congrArg Fragment.filter same
  | orderBy =>
    refine readWhole_again orderByClause_yields
      (fun items hitems => spells_byClause .orderKw rfl rfl items fun o ho => OrderItem.spells (hitems.2 o ho))
      (fun items hitems => ?_) h
    have read : Reads v orderByClause (orderByWords items) [] _ :=
      orderByClause_reads hitems.1 hitems.2 (Nat.zero_le _)
    rw [orderByWords, if_neg (by simpa using hitems.1)] at read
    exact read.mono fun _ same => congrArg Fragment.orderBy same
  | groupBy =>
    refine readWhole_again groupByClause_yields
      (fun items hitems => spells_byClause .groupKw rfl rfl items fun o ho => Operand.spells (hitems.2 o ho).1)
      (fun items hitems => ?_) h
    have read : Reads v groupByClause (groupByWords items) [] _ :=
      groupByClause_reads hitems.1 hitems.2 (Nat.zero_le _)
    rw [groupByWords, if_neg (by simpa using hitems.1)] at read
    exact read.mono fun _ same => congrArg Fragment.groupBy same

/-- Optional words are written in one way, and names and signs as they were. -/
theorem Entry.read_render_join :
    let text := "select all - -a b from \"T\" x left join u using(i)"
    ∃ f g, Entry.query.read .v21 text = .ok f ∧
      f.render = "SELECT - -a AS b\nFROM \"T\" AS x LEFT OUTER JOIN u USING (i)" ∧
      Entry.query.read .v21 f.render = .ok g ∧ g.unplaced = f.unplaced ∧ g.render = f.render := by
  intro text
  have printed : (Entry.query.read .v21 text).toOption.map Fragment.render =
      some "SELECT - -a AS b\nFROM \"T\" AS x LEFT OUTER JOIN u USING (i)" := by decide +kernel
  obtain ⟨f, read, shown⟩ := Option.map_eq_some_iff.1 printed
  have hf := toOption_eq_some_iff.1 read
  obtain ⟨g, hg, same, again⟩ := Entry.read_render hf
  exact ⟨f, g, hf, shown, hg, same, again⟩

/-! ### Names -/

/-- The clause whose one column is named by a word. -/
def SelectClause.ofWord (w : String) : SelectClause where
  distinct := false
  top := none
  items := [.expr (.column { column := ⟨w, false⟩ } none) none]
  span := none

theorem SelectClause.render_ofWord (w : String) : (SelectClause.ofWord w).render = "SELECT " ++ w := by
  simp [render, ofWord, SelectItem.render, Operand.render, ColumnRef.render, Identifier.render, renderAlias, textIf,
    commaList, joinWith]

theorem SelectClause.wellFormed_ofWord {w : String} (regular : Reserved.isRegular v w = true) :
    (SelectClause.ofWord w).WellFormed v := by
  have ref : ColumnRef.WellFormed v { column := ⟨w, false⟩ } := ⟨.inr regular, by nofun⟩
  have column : (Operand.column { column := ⟨w, false⟩ } none).WellFormed v := .intro ref (List.forall_mem_nil _)
  exact ⟨by nofun, List.cons_ne_nil _ _, List.forall_mem_singleton.2 ⟨column, by nofun⟩⟩

theorem SelectItem.column_of_unplaced {items : List SelectItem} {i : Identifier}
    (h : items.map SelectItem.unplaced = [.expr (.column { column := i } none) none]) :
    ∃ span, items = [.expr (.column { column := i } span) none] := by
  obtain ⟨item, single, here⟩ := List.map_eq_singleton_iff.1 h
  cases item with
  | all | allOf => cases here
  | expr o label =>
    obtain ⟨column, rfl⟩ := SelectItem.expr.inj here
    have found : o.asColumn? = some { column := i } := by rw [← Operand.asColumn?_unplaced, column]; rfl
    cases o with
    | column ref span =>
      obtain rfl := Option.some.inj found
      exact ⟨span, single⟩
    | _ => cases found

theorem SelectClause.items_of_unplaced {c : SelectClause} {w : String} (h : c.unplaced = (SelectClause.ofWord w).unplaced) :
    ∃ span, c.items = [.expr (.column { column := ⟨w, false⟩ } span) none] :=
  SelectItem.column_of_unplaced (congrArg SelectClause.items h)

/-- A word is a name as it stands exactly if it is read, after `SELECT`, as the column of that name. -/
theorem isRegular_iff_readSelect (v : Version) (w : String) :
    Reserved.isRegular v w = true ↔ ∃ c span, readSelect v ("SELECT " ++ w) = .ok c ∧
      c.items = [.expr (.column { column := ⟨w, false⟩ } span) none] := by
  constructor
  · intro regular
    have formed := SelectClause.wellFormed_ofWord regular
    obtain ⟨c, read, same⟩ := readWhole_reads (SelectClause.spells formed) (selectClause_reads formed (Nat.zero_le _))
    obtain ⟨span, items⟩ := SelectClause.items_of_unplaced same
    rw [SelectClause.render_ofWord] at read
    exact ⟨c, span, read, items⟩
  · rintro ⟨c, span, read, items⟩
    obtain ⟨-, -, formed⟩ := readWhole_ok selectClause_yields read
    rw [items] at formed
    obtain ⟨⟨ref, -⟩, -⟩ := List.forall_mem_singleton.1 formed
    obtain ⟨delimited | regular, -⟩ : ColumnRef.WellFormed v { column := ⟨w, false⟩ } := ref
    · cases delimited
    · exact regular

/-- A word can be a name in one version only. -/
example : Reserved.isRegular .v20 "Offset" = true ∧ Reserved.isRegular .v21 "Offset" = false := by decide +kernel

end SkyQuery
