import SkyQuery.Proofs.Region.Phrases

/-!
# Phrases are read

What the reader of the STC-S form finds are phrases (`stcsFor_sound`), and it finds each phrase that
no number follows (`stcsFor_words`). It never goes back: a coordinate system ends before a word that
is no name, and the vertices of a polygon end before a word that is no number.
-/

namespace SkyQuery.Region

open Text Vocabulary

/-! ### Steps of a reader -/

section

variable {α β : Type} {ws rest : List String}

theorem bind_ok_iff {p : Reader α} {f : α → Reader β} {b : β} :
    (p >>= f) ws = .ok (b, rest) ↔ ∃ a mid, p ws = .ok (a, mid) ∧ f a mid = .ok (b, rest) := by
  simp only [Bind.bind, StateT.bind, Except.bind]
  cases p ws with
  | error e => simp
  | ok r =>
    constructor
    · exact fun h => ⟨r.1, r.2, rfl, h⟩
    · rintro ⟨a, mid, same, h⟩
      cases same
      exact h

theorem pure_ok_iff {a b : α} : (pure a : Reader α) ws = .ok (b, rest) ↔ a = b ∧ ws = rest := by
  change Except.ok (a, ws) = Except.ok (b, rest) ↔ _
  simp

theorem fault_ne_ok {message : String} {a : α} : (fault message : Reader α) ws ≠ .ok (a, rest) := by
  intro h
  cases h

theorem next_ok_iff {k : RegionKind} {word : String} : next k ws = .ok (word, rest) ↔ ws = word :: rest := by
  cases ws with
  | nil => constructor <;> intro h <;> cases h
  | cons w ws =>
    change Except.ok (w, ws) = Except.ok (word, rest) ↔ _
    simp

theorem number_ok_iff {k : RegionKind} {what : String} {x : Float} :
    number k what ws = .ok (x, rest) ↔ ∃ n : Decimal.Numeral, ws = n.word :: rest ∧ n.value = x := by
  unfold number
  simp only [bind_ok_iff, next_ok_iff]
  constructor
  · rintro ⟨word, mid, rfl, h⟩
    cases found : Decimal.readFinite word with
    | none =>
      rw [found] at h
      exact absurd h fault_ne_ok
    | some y =>
      rw [found] at h
      obtain ⟨rfl, rfl⟩ := pure_ok_iff.1 h
      obtain ⟨n, rfl, value⟩ := Decimal.readFinite_eq_some_iff.1 found
      exact ⟨n, rfl, value⟩
  · rintro ⟨n, rfl, rfl⟩
    refine ⟨n.word, rest, rfl, ?_⟩
    rw [n.read]
    exact pure_ok_iff.2 ⟨rfl, rfl⟩

theorem pair_ok_iff {k : RegionKind} {p : Point} :
    pair k ws = .ok (p, rest) ↔ ∃ q : Pair, ws = q.words ++ rest ∧ q.point = p := by
  unfold pair
  simp only [bind_ok_iff, number_ok_iff, pure_ok_iff]
  constructor
  · rintro ⟨_, _, ⟨x, rfl, rfl⟩, _, _, ⟨y, rfl, rfl⟩, rfl, rfl⟩
    exact ⟨⟨x, y⟩, rfl, rfl⟩
  · rintro ⟨q, rfl, rfl⟩
    exact ⟨_, _, ⟨q.x, rfl, rfl⟩, _, _, ⟨q.y, rfl, rfl⟩, rfl, rfl⟩

theorem paren_ok_iff {k : RegionKind} {expected : String} {u : Unit} :
    paren k expected ws = .ok (u, rest) ↔ ws = expected :: rest := by
  unfold paren
  simp only [bind_ok_iff, next_ok_iff]
  constructor
  · rintro ⟨word, mid, rfl, h⟩
    split at h
    · rename_i same
      obtain ⟨-, rfl⟩ := pure_ok_iff.1 h
      rw [same]
    · exact absurd h fault_ne_ok
  · rintro rfl
    exact ⟨expected, rest, rfl, by rw [if_pos rfl]; rfl⟩

end

/-! ### Coordinate systems -/

theorem head_optionWords {α : Type} [Vocabulary α] {P : String → Prop} (part : Option (Named α))
    (names : ∀ n : Named α, P n.word) {rest : List String} (after : ∀ w ∈ rest.head?, P w) :
    ∀ w ∈ (optionWords part ++ rest).head?, P w := by
  cases part with
  | none => exact after
  | some n =>
    rintro w ⟨⟩
    exact names n

section

variable {α : Type} [Vocabulary α] [LawfulVocabulary α]

theorem cutWord_words (part : Option (Named α)) {rest : List String}
    (after : ∀ w ∈ rest.head?, parse? (α := α) w = none) :
    CoordSys.cutWord (optionWords part ++ rest) = ((part.map Named.value).getD unstated, rest) := by
  cases part with
  | some n =>
    change CoordSys.cutWord (n.word :: rest) = (n.value, rest)
    rw [CoordSys.cutWord, n.parse]
  | none =>
    change CoordSys.cutWord rest = (unstated, rest)
    cases rest with
    | nil => rfl
    | cons w rest => rw [CoordSys.cutWord, after w rfl]

theorem exists_cutWord (ws : List String) :
    ∃ (part : Option (Named α)) (rest : List String),
      CoordSys.cutWord ws = ((part.map Named.value).getD unstated, rest) ∧ ws = optionWords part ++ rest := by
  cases ws with
  | nil => exact ⟨none, [], rfl, rfl⟩
  | cons w ws =>
    rw [CoordSys.cutWord]
    cases found : parse? (α := α) w with
    | none => exact ⟨none, w :: ws, rfl, rfl⟩
    | some a => exact ⟨some ⟨w, a, parse?_eq_some_iff.1 found⟩, ws, rfl, rfl⟩

end

/-- A word that is no name ends each part of a system, a name ends the parts before its own. -/
theorem parts_end (refPos : Option (Named RefPos)) (flavor : Option (Named Flavor)) {rest : List String}
    (after : ∀ w ∈ rest.head?, beginsWithLetter w = false) :
    (∀ w ∈ (optionWords refPos ++ (optionWords flavor ++ rest)).head?, parse? (α := Frame) w = none) ∧
      (∀ w ∈ (optionWords flavor ++ rest).head?, parse? (α := RefPos) w = none) ∧
      ∀ w ∈ rest.head?, parse? (α := Flavor) w = none := by
  refine ⟨?_, ?_, fun w h => parse?_eq_none (after w h)⟩
  · refine head_optionWords refPos (Named.other frame_apart_refPos) ?_
    exact head_optionWords flavor (Named.other frame_apart_flavor) fun w h => parse?_eq_none (after w h)
  · exact head_optionWords flavor (Named.other refPos_apart_flavor) fun w h => parse?_eq_none (after w h)

theorem SysPhrase.ends (s : SysPhrase) {rest : List String} (after : ∀ w ∈ rest.head?, beginsWithLetter w = false) :
    (∀ w ∈ (optionWords s.refPos ++ (optionWords s.flavor ++ rest)).head?, parse? (α := Frame) w = none) ∧
      (∀ w ∈ (optionWords s.flavor ++ rest).head?, parse? (α := RefPos) w = none) ∧
      ∀ w ∈ rest.head?, parse? (α := Flavor) w = none := parts_end s.refPos s.flavor after

theorem SysPhrase.words_append (s : SysPhrase) (rest : List String) :
    s.words ++ rest = optionWords s.frame ++ (optionWords s.refPos ++ (optionWords s.flavor ++ rest)) := by
  rw [words, List.append_assoc, List.append_assoc]

/-- A system ends before a word that is no name, such as a number or a parenthesis. -/
theorem system_words (s : SysPhrase) {rest : List String} (after : ∀ w ∈ rest.head?, beginsWithLetter w = false) :
    system (s.words ++ rest) = .ok (s.sys, rest) := by
  obtain ⟨noFrame, noRefPos, noFlavor⟩ := s.ends after
  unfold system CoordSys.ofWords
  rw [s.words_append, cutWord_words s.frame noFrame]
  dsimp only
  rw [cutWord_words s.refPos noRefPos]
  dsimp only
  rw [cutWord_words s.flavor noFlavor]
  dsimp only
  rw [CoordSys.ofParts, dif_pos s.unframed]
  rfl

theorem system_ok {ws rest : List String} {sys : CoordSys} (h : system ws = .ok (sys, rest)) :
    ∃ s : SysPhrase, ws = s.words ++ rest ∧ s.sys = sys := by
  obtain ⟨frame, afterFrame, cutFrame, rfl⟩ := exists_cutWord (α := Frame) ws
  obtain ⟨refPos, afterRefPos, cutRefPos, rfl⟩ := exists_cutWord (α := RefPos) afterFrame
  obtain ⟨flavor, afterFlavor, cutFlavor, rfl⟩ := exists_cutWord (α := Flavor) afterRefPos
  unfold system CoordSys.ofWords CoordSys.ofParts at h
  rw [cutFrame] at h
  dsimp only at h
  rw [cutRefPos] at h
  dsimp only at h
  rw [cutFlavor] at h
  dsimp only at h
  split at h
  · rename_i unframed
    obtain ⟨rfl, rfl⟩ := Prod.mk.inj (Except.ok.inj h)
    exact ⟨⟨frame, refPos, flavor, unframed⟩, by simp [SysPhrase.words], rfl⟩
  · cases h

/-! ### Lists -/

/-- What may follow the vertices of a polygon. -/
def NoNumber (ws : List String) : Prop := ∀ w ∈ ws.head?, Decimal.readFinite w = none

theorem length_pairWords (ps : List Pair) : (ps.flatMap Pair.words).length = 2 * ps.length := by
  induction ps with
  | nil => rfl
  | cons p ps ih =>
    rw [List.flatMap_cons, List.length_append, ih, List.length_cons]
    change 2 + _ = _
    omega

theorem pairsFor_words {k : RegionKind} {n : Nat} {ps : List Pair} (enough : ps.length ≤ n) {rest : List String}
    (after : NoNumber rest) : pairsFor k n (ps.flatMap Pair.words ++ rest) = .ok (ps.map Pair.point, rest) := by
  induction ps generalizing n with
  | nil =>
    cases n with
    | zero => rfl
    | succ n =>
      have none : rest.head?.bind Decimal.readFinite = none := by
        cases rest with
        | nil => rfl
        | cons w rest => exact after w rfl
      refine bind_ok_iff.2 ⟨rest, rest, rfl, ?_⟩
      rw [none]
      rfl
  | cons p ps ih =>
    cases n with
    | zero => cases enough
    | succ n =>
      refine bind_ok_iff.2 ⟨_, _, rfl, ?_⟩
      have some : ((p :: ps).flatMap Pair.words ++ rest).head?.bind Decimal.readFinite = some p.x.value :=
        p.x.read
      rw [some]
      refine bind_ok_iff.2 ⟨p.point, ps.flatMap Pair.words ++ rest, pair_ok_iff.2 ⟨p, ?_, rfl⟩, ?_⟩
      · simp
      · exact bind_ok_iff.2 ⟨_, _, ih (Nat.le_of_succ_le_succ enough), rfl⟩

theorem pairsFor_ok {k : RegionKind} {n : Nat} {ws rest : List String} {points : List Point}
    (h : pairsFor k n ws = .ok (points, rest)) :
    ∃ ps : List Pair, ws = ps.flatMap Pair.words ++ rest ∧ ps.map Pair.point = points := by
  induction n generalizing ws points with
  | zero =>
    obtain ⟨rfl, rfl⟩ := pure_ok_iff.1 h
    exact ⟨[], rfl, rfl⟩
  | succ n ih =>
    obtain ⟨_, _, seen, h⟩ := bind_ok_iff.1 h
    cases seen
    split at h
    · obtain ⟨_, _, first, h⟩ := bind_ok_iff.1 h
      obtain ⟨_, _, others, h⟩ := bind_ok_iff.1 h
      obtain ⟨rfl, rfl⟩ := pure_ok_iff.1 h
      obtain ⟨p, rfl, rfl⟩ := pair_ok_iff.1 first
      obtain ⟨ps, rfl, rfl⟩ := ih others
      exact ⟨p :: ps, by simp, rfl⟩
    · obtain ⟨rfl, rfl⟩ := pure_ok_iff.1 h
      exact ⟨[], rfl, rfl⟩

/-- Whether a reader finds phrases only. -/
def Sound (region : Reader Region) : Prop :=
  ∀ {ws rest r}, region ws = .ok (r, rest) → ∃ p : Phrase, ws = p.words ++ rest ∧ p.region = r

theorem membersFor_ok {region : Reader Region} (sound : Sound region) {n : Nat} {ws rest : List String}
    {rs : List Region} (h : membersFor region n ws = .ok (rs, rest)) :
    ∃ ps : List Phrase, ws = Phrase.allWords ps ++ rest ∧ Phrase.allRegions ps = rs := by
  induction n generalizing ws rs with
  | zero =>
    obtain ⟨rfl, rfl⟩ := pure_ok_iff.1 h
    exact ⟨[], rfl, rfl⟩
  | succ n ih =>
    obtain ⟨_, _, seen, h⟩ := bind_ok_iff.1 h
    cases seen
    cases ws with
    | nil =>
      obtain ⟨rfl, rfl⟩ := pure_ok_iff.1 h
      exact ⟨[], rfl, rfl⟩
    | cons w ws =>
      dsimp only at h
      split at h
      · obtain ⟨rfl, rfl⟩ := pure_ok_iff.1 h
        exact ⟨[], rfl, rfl⟩
      · obtain ⟨_, _, first, h⟩ := bind_ok_iff.1 h
        obtain ⟨_, _, others, h⟩ := bind_ok_iff.1 h
        obtain ⟨rfl, rfl⟩ := pure_ok_iff.1 h
        obtain ⟨p, split, rfl⟩ := sound first
        obtain ⟨ps, rfl, rfl⟩ := ih others
        exact ⟨p :: ps, by rw [split, Phrase.allWords, List.append_assoc], rfl⟩

/-! ### What is read is a phrase -/

theorem combinationBody_ok {region : Reader Region} (sound : Sound region) (op : Combination)
    (kind : KindWord op.kind) {ws rest : List String} {r : Region}
    (h : combinationBody region op ws = .ok (r, rest)) :
    ∃ p : Phrase, kind.word :: ws = p.words ++ rest ∧ p.region = r := by
  obtain ⟨_, _, system, h⟩ := bind_ok_iff.1 h
  obtain ⟨_, _, opened, h⟩ := bind_ok_iff.1 h
  obtain ⟨_, _, first, h⟩ := bind_ok_iff.1 h
  obtain ⟨_, _, second, h⟩ := bind_ok_iff.1 h
  obtain ⟨_, _, others, h⟩ := bind_ok_iff.1 h
  obtain ⟨_, _, closed, h⟩ := bind_ok_iff.1 h
  obtain ⟨rfl, rfl⟩ := pure_ok_iff.1 h
  obtain ⟨s, rfl, rfl⟩ := system_ok system
  obtain ⟨a, rfl, rfl⟩ := sound first
  obtain ⟨b, rfl, rfl⟩ := sound second
  obtain ⟨ps, rfl, rfl⟩ := membersFor_ok sound others
  obtain rfl := paren_ok_iff.1 opened
  obtain rfl := paren_ok_iff.1 closed
  exact ⟨.combination op kind s a b ps, by simp [Phrase.words], rfl⟩

theorem body_ok {region : Reader Region} (sound : Sound region) {k : RegionKind} (kind : KindWord k)
    {ws rest : List String} {r : Region} (h : body region k ws = .ok (r, rest)) :
    ∃ p : Phrase, kind.word :: ws = p.words ++ rest ∧ p.region = r := by
  cases k with
  | position =>
    obtain ⟨_, _, system, h⟩ := bind_ok_iff.1 h
    obtain ⟨_, _, point, h⟩ := bind_ok_iff.1 h
    obtain ⟨rfl, rfl⟩ := pure_ok_iff.1 h
    obtain ⟨s, rfl, rfl⟩ := system_ok system
    obtain ⟨p, rfl, rfl⟩ := pair_ok_iff.1 point
    exact ⟨.position kind s p, by simp [Phrase.words], rfl⟩
  | circle =>
    obtain ⟨_, _, system, h⟩ := bind_ok_iff.1 h
    obtain ⟨_, _, centre, h⟩ := bind_ok_iff.1 h
    obtain ⟨_, _, radius, h⟩ := bind_ok_iff.1 h
    obtain ⟨rfl, rfl⟩ := pure_ok_iff.1 h
    obtain ⟨s, rfl, rfl⟩ := system_ok system
    obtain ⟨c, rfl, rfl⟩ := pair_ok_iff.1 centre
    obtain ⟨n, rfl, rfl⟩ := number_ok_iff.1 radius
    exact ⟨.circle kind s c n, by simp [Phrase.words], rfl⟩
  | box =>
    obtain ⟨_, _, system, h⟩ := bind_ok_iff.1 h
    obtain ⟨_, _, centre, h⟩ := bind_ok_iff.1 h
    obtain ⟨_, _, width, h⟩ := bind_ok_iff.1 h
    obtain ⟨_, _, height, h⟩ := bind_ok_iff.1 h
    obtain ⟨rfl, rfl⟩ := pure_ok_iff.1 h
    obtain ⟨s, rfl, rfl⟩ := system_ok system
    obtain ⟨c, rfl, rfl⟩ := pair_ok_iff.1 centre
    obtain ⟨m, rfl, rfl⟩ := number_ok_iff.1 width
    obtain ⟨n, rfl, rfl⟩ := number_ok_iff.1 height
    exact ⟨.box kind s c m n, by simp [Phrase.words], rfl⟩
  | polygon =>
    obtain ⟨_, _, system, h⟩ := bind_ok_iff.1 h
    obtain ⟨_, _, first, h⟩ := bind_ok_iff.1 h
    obtain ⟨_, _, second, h⟩ := bind_ok_iff.1 h
    obtain ⟨_, _, third, h⟩ := bind_ok_iff.1 h
    obtain ⟨_, _, others, h⟩ := bind_ok_iff.1 h
    obtain ⟨rfl, rfl⟩ := pure_ok_iff.1 h
    obtain ⟨s, rfl, rfl⟩ := system_ok system
    obtain ⟨a, rfl, rfl⟩ := pair_ok_iff.1 first
    obtain ⟨b, rfl, rfl⟩ := pair_ok_iff.1 second
    obtain ⟨c, rfl, rfl⟩ := pair_ok_iff.1 third
    obtain ⟨ps, rfl, rfl⟩ := pairsFor_ok others
    exact ⟨.polygon kind s a b c ps, by simp [Phrase.words], rfl⟩
  | union => exact combinationBody_ok sound .union kind h
  | intersection => exact combinationBody_ok sound .intersection kind h
  | not =>
    obtain ⟨_, _, opened, h⟩ := bind_ok_iff.1 h
    obtain ⟨_, _, inner, h⟩ := bind_ok_iff.1 h
    obtain ⟨_, _, closed, h⟩ := bind_ok_iff.1 h
    obtain ⟨rfl, rfl⟩ := pure_ok_iff.1 h
    obtain ⟨p, rfl, rfl⟩ := sound inner
    obtain rfl := paren_ok_iff.1 opened
    obtain rfl := paren_ok_iff.1 closed
    exact ⟨.not kind p, by simp [Phrase.words], rfl⟩

theorem stcsFor_sound (n : Nat) : Sound (stcsFor n) := by
  induction n with
  | zero => exact fun h => absurd h fault_ne_ok
  | succ n ih =>
    intro ws rest r h
    obtain ⟨_, _, seen, h⟩ := bind_ok_iff.1 h
    cases seen
    cases ws with
    | nil => cases h
    | cons w ws =>
      cases found : RegionKind.ofWord? w with
      | none =>
        simp only [found] at h
        exact absurd h fault_ne_ok
      | some k =>
        simp only [found] at h
        obtain ⟨_, _, taken, h⟩ := bind_ok_iff.1 h
        cases taken
        exact body_ok ih ⟨w, RegionKind.ofWord?_eq_some_iff.1 found⟩ h

/-! ### Phrases are read -/

theorem stcsFor_kind {k : RegionKind} (kind : KindWord k) (n : Nat) (ws : List String) :
    stcsFor (n + 1) (kind.word :: ws) = body (stcsFor n) k ws := by
  rw [stcsFor]
  simp only [bind, StateT.bind, get, getThe, MonadStateOf.get, StateT.get, pure, Except.pure, Except.bind, kind.kind]
  rfl

theorem KindWord.ne_paren {k : RegionKind} (w : KindWord k) : w.word ≠ ")" := by
  intro same
  have letter := w.letter
  rw [same] at letter
  revert letter
  decide

def Phrase.kind : Phrase → RegionKind
  | .position .. => .position
  | .circle .. => .circle
  | .box .. => .box
  | .polygon .. => .polygon
  | .combination op .. => op.kind
  | .not .. => .not

theorem Phrase.exists_kind (p : Phrase) : ∃ (kind : KindWord p.kind) (ws : List String),
    p.words = kind.word :: ws := by
  cases p with
  | position kind | circle kind | box kind | polygon kind | combination op kind | not kind =>
    exact ⟨kind, _, by rw [Phrase.words]⟩

theorem Phrase.ne_paren (p : Phrase) (rest rest' : List String) : p.words ++ rest ≠ ")" :: rest' := by
  obtain ⟨kind, ws, words⟩ := p.exists_kind
  rw [words, List.cons_append]
  exact fun same => kind.ne_paren (List.cons.inj same).1

theorem Phrase.noNumber (p : Phrase) (rest : List String) : NoNumber (p.words ++ rest) := by
  obtain ⟨kind, ws, words⟩ := p.exists_kind
  rw [words]
  rintro w ⟨⟩
  exact readFinite_eq_none (.inl kind.letter)

theorem noNumber_paren (rest : List String) : NoNumber (")" :: rest) := by
  rintro w ⟨⟩
  exact readFinite_eq_none (.inr (.inr rfl))

theorem Phrase.noNumber_members (ps : List Phrase) (rest : List String) :
    NoNumber (allWords ps ++ ")" :: rest) := by
  cases ps with
  | nil => exact noNumber_paren rest
  | cons p ps =>
    rw [allWords, List.append_assoc]
    exact p.noNumber _

theorem Phrase.length_le_allWords (ps : List Phrase) : ps.length ≤ (allWords ps).length := by
  induction ps with
  | nil => exact Nat.le_refl 0
  | cons p ps ih =>
    obtain ⟨kind, ws, words⟩ := p.exists_kind
    simp only [allWords, words, List.length_append, List.length_cons]
    omega

theorem noLetter_numeral (n : Decimal.Numeral) (rest : List String) :
    ∀ w ∈ (n.word :: rest).head?, beginsWithLetter w = false := by
  rintro w ⟨⟩
  exact beginsWithLetter_numeral n

theorem noLetter_pairs (p : Pair) (ps : List Pair) (rest : List String) :
    ∀ w ∈ ((p :: ps).flatMap Pair.words ++ rest).head?, beginsWithLetter w = false :=
  noLetter_numeral p.x _

theorem noLetter_paren (rest : List String) : ∀ w ∈ ("(" :: rest).head?, beginsWithLetter w = false := by
  rintro w ⟨⟩
  decide

theorem pair_words (k : RegionKind) (p : Pair) (rest : List String) :
    pair k (p.words ++ rest) = .ok (p.point, rest) :=
  pair_ok_iff.2 ⟨p, rfl, rfl⟩

theorem number_words (k : RegionKind) (what : String) (n : Decimal.Numeral) (rest : List String) :
    number k what (n.word :: rest) = .ok (n.value, rest) :=
  number_ok_iff.2 ⟨n, rfl, rfl⟩

theorem paren_words (k : RegionKind) (expected : String) (rest : List String) :
    paren k expected (expected :: rest) = .ok ((), rest) :=
  paren_ok_iff.2 rfl

mutual

/-- A phrase is read wherever no number follows it. -/
theorem stcsFor_words (p : Phrase) {n : Nat} (enough : p.words.length ≤ n) {rest : List String}
    (after : NoNumber rest) : stcsFor n (p.words ++ rest) = .ok (p.region, rest) := by
  -- `n` bounds the depth of the phrase; each nested phrase is shorter than the one around it.
  cases n with
  | zero =>
    obtain ⟨kind, ws, words⟩ := p.exists_kind
    simp [words] at enough
  | succ n =>
    cases p with
    | position kind sys point =>
      rw [Phrase.words, List.cons_append, stcsFor_kind, List.append_assoc]
      refine bind_ok_iff.2 ⟨_, _, system_words sys (noLetter_numeral point.x _), ?_⟩
      exact bind_ok_iff.2 ⟨_, _, pair_words _ point rest, rfl⟩
    | circle kind sys centre radius =>
      rw [Phrase.words, List.cons_append, stcsFor_kind, List.append_assoc, List.append_assoc]
      refine bind_ok_iff.2 ⟨_, _, system_words sys (noLetter_numeral centre.x _), ?_⟩
      refine bind_ok_iff.2 ⟨_, _, pair_words _ centre _, ?_⟩
      exact bind_ok_iff.2 ⟨_, _, number_words _ _ radius rest, rfl⟩
    | box kind sys centre width height =>
      rw [Phrase.words, List.cons_append, stcsFor_kind, List.append_assoc, List.append_assoc]
      refine bind_ok_iff.2 ⟨_, _, system_words sys (noLetter_numeral centre.x _), ?_⟩
      refine bind_ok_iff.2 ⟨_, _, pair_words _ centre _, ?_⟩
      refine bind_ok_iff.2 ⟨_, _, number_words _ _ width _, ?_⟩
      exact bind_ok_iff.2 ⟨_, _, number_words _ _ height rest, rfl⟩
    | polygon kind sys first second third others =>
      rw [Phrase.words, List.cons_append, stcsFor_kind, List.append_assoc]
      refine bind_ok_iff.2 ⟨_, _, system_words sys (noLetter_numeral first.x _), ?_⟩
      rw [List.flatMap_cons, List.flatMap_cons, List.flatMap_cons, List.append_assoc, List.append_assoc,
        List.append_assoc]
      refine bind_ok_iff.2 ⟨_, _, pair_words _ first _, ?_⟩
      refine bind_ok_iff.2 ⟨_, _, pair_words _ second _, ?_⟩
      refine bind_ok_iff.2 ⟨_, _, pair_words _ third _, ?_⟩
      refine bind_ok_iff.2 ⟨_, _, pairsFor_words ?_ after, rfl⟩
      rw [List.length_append, length_pairWords]
      omega
    | combination op kind sys first second others =>
      simp only [Phrase.words, List.length_cons, List.length_append] at enough
      -- The members are counted by what is left of the text, which has a word for each of them at least.
      have members : bounded (membersFor (stcsFor n)) (Phrase.allWords others ++ ")" :: rest) =
          .ok (Phrase.allRegions others, ")" :: rest) := by
        refine membersFor_words others (by omega) ?_ rest
        have := Phrase.length_le_allWords others
        rw [List.length_append]
        omega
      have split : (Phrase.combination op kind sys first second others).words ++ rest =
          kind.word :: (sys.words ++ "(" :: (first.words ++
            (second.words ++ (Phrase.allWords others ++ ")" :: rest)))) := by
        simp [Phrase.words]
      have body : body (stcsFor n) op.kind = combinationBody (stcsFor n) op := by cases op <;> rfl
      rw [split, stcsFor_kind, body]
      refine bind_ok_iff.2 ⟨_, _, system_words sys (noLetter_paren _), ?_⟩
      refine bind_ok_iff.2 ⟨_, _, paren_words _ _ _, ?_⟩
      refine bind_ok_iff.2 ⟨_, _, stcsFor_words first (by omega) (second.noNumber _), ?_⟩
      refine bind_ok_iff.2 ⟨_, _, stcsFor_words second (by omega) (Phrase.noNumber_members others rest), ?_⟩
      refine bind_ok_iff.2 ⟨_, _, members, ?_⟩
      exact bind_ok_iff.2 ⟨_, _, paren_words _ _ _, rfl⟩
    | not kind inner =>
      simp only [Phrase.words, List.length_cons, List.length_append] at enough
      rw [Phrase.words, List.cons_append, stcsFor_kind, List.cons_append, List.append_assoc]
      refine bind_ok_iff.2 ⟨_, _, paren_words _ _ _, ?_⟩
      refine bind_ok_iff.2 ⟨_, _, stcsFor_words inner (by omega) (noNumber_paren rest), ?_⟩
      exact bind_ok_iff.2 ⟨_, _, paren_words _ _ _, rfl⟩

theorem membersFor_words (ps : List Phrase) {n m : Nat} (enough : (Phrase.allWords ps).length ≤ n)
    (rounds : ps.length ≤ m) (rest : List String) :
    membersFor (stcsFor n) m (Phrase.allWords ps ++ ")" :: rest) =
      .ok (Phrase.allRegions ps, ")" :: rest) := by
  cases m with
  | zero =>
    cases ps with
    | nil => rfl
    | cons p ps => cases rounds
  | succ m =>
    cases ps with
    | nil => rfl
    | cons p ps =>
      obtain ⟨kind, ws, words⟩ := p.exists_kind
      have enough : p.words.length + (Phrase.allWords ps).length ≤ n := by
        simpa [Phrase.allWords] using enough
      have split : Phrase.allWords (p :: ps) ++ ")" :: rest = p.words ++ (Phrase.allWords ps ++ ")" :: rest) := by
        simp [Phrase.allWords]
      have first := stcsFor_words p (n := n) (by omega) (Phrase.noNumber_members ps rest)
      have others := membersFor_words ps (n := n) (by omega) (Nat.le_of_succ_le_succ rounds) rest
      rw [split]
      refine bind_ok_iff.2 ⟨_, _, rfl, ?_⟩
      rw [words, List.cons_append]
      dsimp only
      rw [if_neg kind.ne_paren, ← List.cons_append, ← words]
      refine bind_ok_iff.2 ⟨_, _, first, ?_⟩
      exact bind_ok_iff.2 ⟨_, _, others, rfl⟩

end

end SkyQuery.Region
