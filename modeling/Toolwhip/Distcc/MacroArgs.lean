import Toolwhip.Distcc.MacroEval

/-! # The arguments of a macro call

What `_ParseArgs` has to return is said of a masked text, in which string literals are blotted out: the
parentheses and commas that are left are the ones that count. The code masks too much or too little
where a literal holds an escaped quote. -/

namespace Toolwhip.Distcc.MacroEval
open Lib.WordTemplates List
set_option autoImplicit false

/-- `none` is outside of literals; inside, whether the backslashes just before are odd in number. Only
with `escapes` does it matter. -/
def literalStep (escapes : Bool) : Option Bool → UInt8 → Option Bool
  | none, c => if c = 34 then some false else none
  | some odd, c => if c = 34 ∧ (escapes && odd) = false then none else some (c == 92 && !odd)

def maskedChar (q : Option Bool) (c : UInt8) : UInt8 := if q = none then c else 34

def masked (escapes : Bool) : Option Bool → Text → Text
  | _, [] => []
  | q, c :: rest => maskedChar q c :: masked escapes (literalStep escapes q c) rest

/-- A literal holds a quote after an odd number of backslashes. -/
def holdsEscapedQuote : Option Bool → Text → Bool
  | _, [] => false
  | q, c :: rest => (q == some true && c == 34) || holdsEscapedQuote (literalStep true q c) rest

theorem masked_eq (u : Text) (q : Option Bool) (h : holdsEscapedQuote q u = false) :
    masked true q u = masked false q u := by
  induction u generalizing q with
  | nil => rfl
  | cons c rest ih =>
    simp only [holdsEscapedQuote, Bool.or_eq_false_iff] at h
    have hstep : literalStep true q c = literalStep false q c := by
      rcases q with _ | _ | _
      · rfl
      · rfl
      have hc : c ≠ 34 := by simpa using h.1
      simp [literalStep, hc]
    simp only [masked]
    rw [ih _ h.2, hstep]

theorem masked_get {escapes : Bool} {q : Option Bool} {u : Text} {k : Nat} {c : UInt8}
    (h : (masked escapes q u)[k]? = some c) (hc : c ≠ 34) : u[k]? = some c := by
  induction u generalizing q k with
  | nil => simp [masked] at h
  | cons b rest ih =>
    cases k with
    | zero =>
      simp only [masked, maskedChar] at h
      split at h
      · exact h
      · exact absurd (Option.some.inj h).symm hc
    | succ k => exact ih h

/-! ## Depth -/

def weight (c : UInt8) : Int := if c = 40 then 1 else if c = 41 then -1 else 0

def depth (t : Text) (k : Nat) : Int := (t.take k).count 40 - (t.take k).count 41

@[simp] theorem depth_zero (t : Text) : depth t 0 = 0 := rfl

@[simp] theorem depth_cons (c : UInt8) (t : Text) (k : Nat) :
    depth (c :: t) (k + 1) = weight c + depth t k := by
  simp only [depth, weight, take_succ_cons, count_cons, beq_iff_eq]
  split
  · rename_i h
    subst h
    simp
    omega
  · split <;> simp
    omega

/-- The parenthesis at `n` is the first to close one more than there are, with `d` open at the start. -/
structure EndsAt (d : Int) (t : Text) (n : Nat) : Prop where
  closes : t[n]? = some 41
  last : d + depth t n = 1
  inner : ∀ k, k ≤ n → 0 < d + depth t k

/-- The text begins with a parenthesis, which the one at `n` closes. -/
structure ClosesAt (t : Text) (n : Nat) : Prop where
  opens : t[0]? = some 40
  closes : t[n]? = some 41
  last : depth t n = 1
  inner : ∀ k, 0 < k → k ≤ n → 0 < depth t k

def commaAt (d : Int) (t : Text) (k : Nat) : Prop := t[k]? = some 44 ∧ d + depth t k = 1

instance (d : Int) (t : Text) (k : Nat) : Decidable (commaAt d t k) :=
  inferInstanceAs (Decidable (_ ∧ _))

def commasBefore (d : Int) (t : Text) (n : Nat) : List Nat := (List.range n).filter fun k => commaAt d t k

variable {t : Text} {n : Nat}

theorem endsAt_cons {d : Int} {c : UInt8} :
    EndsAt d (c :: t) (n + 1) ↔ 0 < d ∧ EndsAt (d + weight c) t n := by
  constructor
  · intro h
    refine ⟨by simpa using h.inner 0 (by omega), h.closes, ?_, ?_⟩
    · have := h.last
      simp only [depth_cons] at this
      omega
    · intro k hk
      have := h.inner (k + 1) (by omega)
      simp only [depth_cons] at this
      omega
  · intro ⟨hd, h⟩
    refine ⟨h.closes, ?_, ?_⟩
    · have := h.last
      simp only [depth_cons]
      omega
    · intro k hk
      cases k with
      | zero => simpa using hd
      | succ k =>
        have := h.inner k (by omega)
        simp only [depth_cons]
        omega

theorem commasBefore_cons (d : Int) (c : UInt8) (t : Text) (n : Nat) :
    commasBefore d (c :: t) (n + 1) =
      (if c = 44 ∧ d = 1 then [0] else []) ++ (commasBefore (d + weight c) t n).map (· + 1) := by
  have hcomma : ∀ k, commaAt d (c :: t) (k + 1) ↔ commaAt (d + weight c) t k := by
    intro k
    simp [commaAt, Int.add_assoc]
  have hhead : commaAt d (c :: t) 0 ↔ c = 44 ∧ d = 1 := by simp [commaAt]
  simp only [commasBefore, range_succ_eq_map, filter_cons, filter_map, hhead]
  split <;> simp_all [Function.comp_def]

section Loop
variable {i d : Nat} {q : Option Bool} {commas : List Nat} {c : UInt8} {rest : Text}

theorem parseArgsLoop_step (hd : 0 < d) (hgo : ¬ (maskedChar q c = 41 ∧ d = 1)) :
    parseArgsLoop i d q.isSome commas (c :: rest) =
      parseArgsLoop (i + 1) (d + weight (maskedChar q c)).toNat (literalStep false q c).isSome
        (commas ++ if maskedChar q c = 44 ∧ (d : Int) = 1 then [i] else []) rest := by
  cases q with
  | some odd =>
    by_cases hc : c = 34
    · simp [parseArgsLoop, maskedChar, weight, literalStep, hc]
    have hbne : (c != 34) = true := bne_iff_ne.mpr hc
    simp [parseArgsLoop, maskedChar, weight, literalStep, hc, hbne]
  | none =>
    simp only [parseArgsLoop, maskedChar, weight, literalStep, Option.isSome_none, if_true] at hgo ⊢
    by_cases hcomma : c = 44 ∧ d = 1
    · simp [hcomma.1, hcomma.2]
    have hcomma' : ¬ (c = 44 ∧ (d : Int) = 1) := fun h => hcomma ⟨h.1, by omega⟩
    rw [if_neg hcomma, if_neg hcomma', append_nil]
    by_cases hopen : c = 40
    · simp [hopen]
    by_cases hclose : c = 41
    · have : d - 1 ≠ 0 := fun h => hgo ⟨hclose, by omega⟩
      have hd' : ((d : Int) + -1).toNat = d - 1 := by omega
      simp [hclose, this, hd']
    by_cases hquote : c = 34
    · simp [hquote]
    have hbeq : (c == 34) = false := beq_eq_false_iff_ne.mpr hquote
    simp [hopen, hclose, hquote, hbeq]

theorem parseArgsLoop_found {n : Nat} {u : Text} (h : EndsAt d (masked false q u) n) :
    parseArgsLoop i d q.isSome commas u =
      some (commas ++ (commasBefore d (masked false q u) n).map (i + ·), i + n) := by
  induction u generalizing i d q commas n with
  | nil => simpa [masked] using h.closes
  | cons c rest ih =>
    cases n with
    | zero =>
      have hlast := h.last
      have hd : d = 1 := by
        simp only [depth_zero] at hlast
        omega
      have hc : maskedChar q c = 41 := by simpa [masked] using h.closes
      cases q with
      | none =>
        have hc : c = 41 := hc
        simp [parseArgsLoop, hc, hd, commasBefore]
      | some odd => simp [maskedChar] at hc
    | succ n =>
      obtain ⟨hd, hrest⟩ := endsAt_cons.mp h
      have hpos := hrest.inner 0 (by omega)
      simp only [depth_zero] at hpos
      have hgo : ¬ (maskedChar q c = 41 ∧ d = 1) := by
        intro hgo
        simp only [hgo.1, weight, hgo.2] at hpos
        simp at hpos
      have hlevel : (((d + weight (maskedChar q c)).toNat : Nat) : Int) =
          d + weight (maskedChar q c) := by
        omega
      rw [← hlevel] at hrest
      rw [parseArgsLoop_step (by omega) hgo, ih hrest, masked, commasBefore_cons, hlevel, append_assoc]
      congr 2
      · split <;> simp [Function.comp_def, Nat.add_comm, Nat.add_left_comm]
      · omega

theorem parseArgsLoop_ends {u : Text} (hd : 0 < d)
    (h : (parseArgsLoop i d q.isSome commas u).isSome) : ∃ n, EndsAt d (masked false q u) n := by
  induction u generalizing i d q commas with
  | nil => simp [parseArgsLoop] at h
  | cons c rest ih =>
    by_cases hgo : maskedChar q c = 41 ∧ d = 1
    · refine ⟨0, by simpa [masked] using hgo.1, by simp [hgo.2], ?_⟩
      intro k hk
      simp [Nat.le_zero.mp hk, hgo.2]
    rw [parseArgsLoop_step hd hgo] at h
    have hpos : 0 < (d : Int) + weight (maskedChar q c) := by
      unfold weight
      split
      · omega
      split
      · have : d ≠ 1 := fun h1 => hgo ⟨by assumption, h1⟩
        omega
      · omega
    obtain ⟨n, hn⟩ := ih (by omega) h
    rw [Int.toNat_of_nonneg (by omega)] at hn
    exact ⟨n + 1, endsAt_cons.mpr ⟨by omega, hn⟩⟩

end Loop

def pieces (s : Text) : List Nat → List Text
  | a :: b :: more => (s.drop (a + 1)).take (b - (a + 1)) :: pieces s (b :: more)
  | _ => []

theorem pieces_eq_zip (s : Text) (a : Nat) (more : List Nat) (z : Nat) :
    ((a :: more).zip (more ++ [z])).map
      (fun place => (s.drop (place.1 + 1)).take (place.2 - (place.1 + 1))) =
      pieces s (a :: more ++ [z]) := by
  induction more generalizing a with
  | nil => rfl
  | cons b more ih =>
    have := ih b
    simp only [cons_append, zip_cons_cons, map_cons, pieces] at this ⊢
    rw [this]

variable {s : Text}

theorem pieces_inj {l l' : List Nat} {a : Nat} (h : pieces s (a :: l) = pieces s (a :: l'))
    (hl : (a :: l).Pairwise (· < ·)) (hl' : (a :: l').Pairwise (· < ·)) (hin : ∀ b ∈ l, b ≤ s.length)
    (hin' : ∀ b ∈ l', b ≤ s.length) : l = l' := by
  induction l generalizing a l' with
  | nil => cases l' with
    | nil => rfl
    | cons b l' => simp [pieces] at h
  | cons b l ih =>
    cases l' with
    | nil => simp [pieces] at h
    | cons b' l' =>
      simp only [pieces, List.cons.injEq] at h
      have hlength := congrArg List.length h.1
      have hb := hin b mem_cons_self
      have hb' := hin' b' mem_cons_self
      have hab := (List.pairwise_cons.mp hl).1 b mem_cons_self
      have hab' := (List.pairwise_cons.mp hl').1 b' mem_cons_self
      simp only [length_take, length_drop] at hlength
      obtain rfl : b = b' := by omega
      rw [ih h.2 (List.pairwise_cons.mp hl).2 (List.pairwise_cons.mp hl').2
        (fun _ hmem => hin _ (mem_cons_of_mem b hmem)) fun _ hmem => hin' _ (mem_cons_of_mem b hmem)]

theorem join_pieces {a z : Nat} {commas : List Nat} (hcommas : ∀ b ∈ commas, s[b]? = some 44)
    (hsorted : (a :: commas ++ [z]).Pairwise (· < ·)) :
    [44].intercalate (pieces s (a :: commas ++ [z])) = (s.take z).drop (a + 1) := by
  induction commas generalizing a with
  | nil => simp [pieces, List.intercalate, drop_take]
  | cons b commas ih =>
    have hrest := ih (fun c hc => hcommas c (mem_cons_of_mem b hc)) (List.pairwise_cons.mp hsorted).2
    have hab := (List.pairwise_cons.mp hsorted).1 b (by simp)
    have hbz := (List.pairwise_cons.mp (List.pairwise_cons.mp hsorted).2).1 z (by simp)
    obtain ⟨hlt, hcomma⟩ := List.getElem?_eq_some_iff.mp (hcommas b mem_cons_self)
    have hne : pieces s (b :: commas ++ [z]) ≠ [] := by cases commas <;> simp [pieces]
    simp only [cons_append, pieces] at hrest hne ⊢
    rw [intercalate_cons_of_ne_nil hne, hrest]
    have hat : (s.take z).drop b = 44 :: (s.take z).drop (b + 1) := by
      rw [drop_eq_getElem_cons (by simp; omega)]
      simp [hcomma]
    have hcut : (s.take z).drop (a + 1) = ((s.take z).drop (a + 1)).take (b - (a + 1)) ++
      (s.take z).drop b := by
      conv => lhs; rw [← take_append_drop (b - (a + 1)) ((s.take z).drop (a + 1))]
      rw [drop_drop]
      congr 2
      omega
    have hpiece : ((s.take z).drop (a + 1)).take (b - (a + 1)) = (s.drop (a + 1)).take (b - (a + 1)) := by
      rw [drop_take, take_take, Nat.min_eq_left (by omega)]
    rw [hcut, hat, hpiece]
    simp

/-! ## The arguments -/

def splitPlaces (p : Nat) (t : Text) (n : Nat) : List Nat :=
  p :: (commasBefore 0 t n).map (p + ·) ++ [p + n]

/-- `_ParseArgs` finds the parenthesis that closes in the masked text, and cuts at the commas. -/
structure SplitsBy (escapes : Bool) (s : Text) (p : Nat) : Prop where
  found : ∀ n, ClosesAt (masked escapes none (s.drop p)) n →
    ParseArgs s p = (some (pieces s (splitPlaces p (masked escapes none (s.drop p)) n)), p + n + 1)
  missing : (∀ n, ¬ ClosesAt (masked escapes none (s.drop p)) n) → ParseArgs s p = (none, p)
  joined : ∀ args e, ParseArgs s p = (some args, e) →
    40 :: [44].intercalate args ++ [41] = (s.take e).drop p

theorem closesAt_cons : ClosesAt (40 :: t) (n + 1) ↔ EndsAt 1 t n := by
  constructor
  · intro h
    refine ⟨h.closes, by simpa [weight] using h.last, ?_⟩
    intro k hk
    simpa [weight] using h.inner (k + 1) (by omega) (by omega)
  · intro h
    refine ⟨rfl, h.closes, by simpa [weight] using h.last, ?_⟩
    intro k hk hkn
    obtain ⟨k, rfl⟩ := Nat.exists_eq_succ_of_ne_zero (Nat.ne_of_gt hk)
    simpa [weight] using h.inner k (by omega)

theorem splitPlaces_sorted (p : Nat) (t : Text) (n : Nat) (h : ClosesAt t n) :
    (splitPlaces p t n).Pairwise (· < ·) := by
  have hcommas : ∀ k ∈ commasBefore 0 t n, 0 < k ∧ k < n := by
    intro k hk
    simp only [commasBefore, mem_filter, mem_range, decide_eq_true_eq] at hk
    refine ⟨Nat.pos_of_ne_zero ?_, hk.1⟩
    rintro rfl
    have := hk.2.2
    simp at this
  have hn : n ≠ 0 := by
    rintro rfl
    simpa using h.last
  simp only [splitPlaces, cons_append, pairwise_cons, pairwise_append, mem_append,
    mem_map, mem_singleton]
  refine ⟨?_, (List.pairwise_lt_range.filter _).map _ (by omega), by simp, ?_⟩
  · rintro b (⟨k, hk, rfl⟩ | rfl)
    · have := hcommas k hk
      omega
    · omega
  · rintro b ⟨k, hk, rfl⟩ c rfl
    have := hcommas k hk
    omega

variable {p : Nat}

theorem ParseArgs_found (h : ClosesAt (masked false none (s.drop p)) n) :
    ParseArgs s p = (some (pieces s (splitPlaces p (masked false none (s.drop p)) n)), p + n + 1) := by
  obtain ⟨rest, hdrop⟩ : ∃ rest, s.drop p = 40 :: rest := by
    have := masked_get h.opens (by decide)
    cases hdrop : s.drop p with
    | nil => simp [hdrop] at this
    | cons c rest => exact ⟨rest, by simpa [hdrop] using this⟩
  have hmask : masked false none (40 :: rest) = 40 :: masked false none rest := rfl
  rw [hdrop, hmask] at h ⊢
  obtain ⟨n, rfl⟩ : ∃ m, n = m + 1 := by
    cases n with
    | zero => simpa using h.closes
    | succ m => exact ⟨m, rfl⟩
  have hloop : parseArgsLoop p 0 false [p] (40 :: rest) = some
      (p :: (commasBefore 1 (masked false none rest) n).map (p + 1 + ·), p + 1 + n) := by
    have := @parseArgsLoop_found (p + 1) 1 none [p] n rest (closesAt_cons.mp h)
    simpa [parseArgsLoop] using this
  have hplaces : (commasBefore 0 (40 :: masked false none rest) (n + 1)).map (p + ·) =
      (commasBefore 1 (masked false none rest) n).map (p + 1 + ·) := by
    rw [commasBefore_cons]
    simp [weight, Function.comp_def, Nat.add_comm, Nat.add_left_comm]
  simp only [ParseArgs, hdrop, hloop, splitPlaces, hplaces]
  rw [← Nat.add_assoc, Nat.add_right_comm p n 1, ← pieces_eq_zip]
  simp

theorem ParseArgs_missing (h : ∀ n, ¬ ClosesAt (masked false none (s.drop p)) n) :
    ParseArgs s p = (none, p) := by
  unfold ParseArgs
  split
  · rfl
  rename_i hopen
  cases hdrop : s.drop p with
  | nil => simp [hdrop] at hopen
  | cons c rest =>
    obtain rfl : c = 40 := by simpa [hdrop] using hopen
    have hloop : parseArgsLoop p 0 false [p] (40 :: rest) = parseArgsLoop (p + 1) 1 false [p] rest := by
      simp [parseArgsLoop]
    rw [hloop]
    cases hresult : parseArgsLoop (p + 1) 1 false [p] rest with
    | none => rfl
    | some result =>
      obtain ⟨n, hn⟩ := @parseArgsLoop_ends (p + 1) 1 none [p] rest (by decide) (by simp [hresult])
      rw [hdrop] at h
      exact absurd (closesAt_cons.mpr hn) (h (n + 1))

theorem splitsBy_quotes (s : Text) (p : Nat) : SplitsBy false s p := by
  refine ⟨fun n => ParseArgs_found, ParseArgs_missing, ?_⟩
  intro args e h
  by_cases hclose : ∃ n, ClosesAt (masked false none (s.drop p)) n
  · obtain ⟨n, hn⟩ := hclose
    rw [ParseArgs_found hn] at h
    obtain ⟨hargs, rfl⟩ := Prod.mk.inj h
    obtain rfl := Option.some.inj hargs
    have hopen := masked_get hn.opens (by decide)
    have hend := masked_get hn.closes (by decide)
    rw [getElem?_drop] at hopen hend
    have hsorted := splitPlaces_sorted p _ n hn
    have hpn : p < p + n := (List.pairwise_cons.mp hsorted).1 _ (by simp)
    obtain ⟨hlt, -⟩ := List.getElem?_eq_some_iff.mp hend
    have hfirst : (s.take (p + n)).drop p = 40 :: (s.take (p + n)).drop (p + 1) := by
      rw [drop_eq_getElem_cons (by simp; omega)]
      obtain ⟨_, hat⟩ := List.getElem?_eq_some_iff.mp hopen
      simpa using hat
    rw [splitPlaces, join_pieces ?_ hsorted]
    · rw [← hfirst, take_add_one, hend, drop_append_of_le_length (by simp; omega)]
      rfl
    · intro b hb
      obtain ⟨k, hk, rfl⟩ := List.mem_map.mp hb
      simp only [commasBefore, mem_filter, decide_eq_true_eq] at hk
      have := masked_get hk.2.1 (by decide)
      rwa [getElem?_drop] at this
  · rw [ParseArgs_missing (not_exists.mp hclose)] at h
    simp at h

/-- The same parenthesis closes, and the same commas count, whether or not an escaped quote ends a
literal. -/
def SameReading (u : Text) : Prop :=
  ∀ n, (ClosesAt (masked true none u) n ↔ ClosesAt (masked false none u) n) ∧
    (ClosesAt (masked true none u) n → ∀ k, k < n →
      (commaAt 0 (masked true none u) k ↔ commaAt 0 (masked false none u) k))

theorem splitPlaces_congr {t' : Text} (h : ∀ k, k < n → (commaAt 0 t k ↔ commaAt 0 t' k)) :
    splitPlaces p t n = splitPlaces p t' n := by
  have hcommas : commasBefore 0 t n = commasBefore 0 t' n := by
    apply filter_congr
    intro k hk
    simp [h k (List.mem_range.mp hk)]
  rw [splitPlaces, hcommas, splitPlaces]

theorem commaAt_of_splitPlaces {k : Nat} {t' : Text} (h : splitPlaces p t n = splitPlaces p t' n)
    (hk : k < n) : commaAt 0 t k ↔ commaAt 0 t' k := by
  have hcommas : commasBefore 0 t n = commasBefore 0 t' n := by
    have := append_cancel_right (List.cons.inj h).2
    exact List.map_injective_iff.mpr (fun _ _ => Nat.add_left_cancel) this
  have hmem : ∀ u, commaAt 0 u k ↔ k ∈ commasBefore 0 u n := by
    intro u
    simp [commasBefore, hk]
  rw [hmem, hmem, hcommas]

theorem splitPlaces_le {b : Nat} {escapes : Bool} (h : ClosesAt (masked escapes none (s.drop p)) n)
    (hb : b ∈ (commasBefore 0 (masked escapes none (s.drop p)) n).map (p + ·) ++ [p + n]) :
    b ≤ s.length := by
  have hend := masked_get h.closes (by decide)
  rw [getElem?_drop] at hend
  obtain ⟨hlt, -⟩ := List.getElem?_eq_some_iff.mp hend
  simp only [mem_append, mem_map, commasBefore, mem_filter, mem_range,
    mem_singleton] at hb
  omega

/-- `_ParseArgs` splits as it should just where a reading that lets an escaped quote end a literal finds
the same places; so it is where no literal holds an escaped quote. -/
theorem ParseArgs_splits_iff (s : Text) (p : Nat) : (SplitsBy true s p ↔ SameReading (s.drop p)) ∧
      (holdsEscapedQuote none (s.drop p) = false → SplitsBy true s p) := by
  have hcode := splitsBy_quotes s p
  have hiff : SplitsBy true s p ↔ SameReading (s.drop p) := by
    constructor
    · intro h n
      have hclose : ClosesAt (masked true none (s.drop p)) n →
          ParseArgs s p = (some (pieces s (splitPlaces p (masked false none (s.drop p)) n)), p + n + 1) ∧
            ClosesAt (masked false none (s.drop p)) n := by
        intro hn
        by_cases hsome : ∃ m, ClosesAt (masked false none (s.drop p)) m
        · obtain ⟨m, hm⟩ := hsome
          have hsame := (h.found n hn).symm.trans (hcode.found m hm)
          obtain rfl : n = m := by
            have := (Prod.mk.inj hsame).2
            omega
          exact ⟨hcode.found n hm, hm⟩
        · have hsame := (h.found n hn).symm.trans (hcode.missing (not_exists.mp hsome))
          simp at hsame
      refine ⟨⟨fun hn => (hclose hn).2, ?_⟩, ?_⟩
      · intro hn
        by_cases hsome : ∃ m, ClosesAt (masked true none (s.drop p)) m
        · obtain ⟨m, hm⟩ := hsome
          have hsame := (h.found m hm).symm.trans (hcode.found n hn)
          obtain rfl : m = n := by
            have := (Prod.mk.inj hsame).2
            omega
          exact hm
        · have hsame := (h.missing (not_exists.mp hsome)).symm.trans (hcode.found n hn)
          simp at hsame
      · intro hn k hk
        have hsame := (h.found n hn).symm.trans (hclose hn).1
        have hpieces := Option.some.inj (Prod.mk.inj hsame).1
        have hfalse := (hclose hn).2
        have hplaces := pieces_inj hpieces (splitPlaces_sorted p _ n hn) (splitPlaces_sorted p _ n hfalse)
          (fun b => splitPlaces_le hn) fun b => splitPlaces_le hfalse
        exact commaAt_of_splitPlaces (congrArg (p :: ·) hplaces) hk
    · intro h
      refine ⟨?_, ?_, hcode.joined⟩
      · intro n hn
        rw [hcode.found n ((h n).1.mp hn), splitPlaces_congr ((h n).2 hn)]
      · intro hnone
        exact hcode.missing fun n hn => hnone n ((h n).1.mpr hn)
  refine ⟨hiff, ?_⟩
  intro h
  apply hiff.mpr
  intro n
  rw [masked_eq _ _ h]
  exact ⟨Iff.rfl, fun _ _ _ => Iff.rfl⟩

/-- `("\"")`: the literal is a quote, and the code takes the parenthesis to be in another. -/
theorem ParseArgs_escaped_quote :
    ¬ SplitsBy true [40, 34, 92, 34, 34, 41] 0 ∧ ParseArgs [40, 34, 92, 34, 34, 41] 0 = (none, 0) := by
  have hnone : ParseArgs [40, 34, 92, 34, 34, 41] 0 = (none, 0) := by decide
  refine ⟨?_, hnone⟩
  intro h
  have hinner : ∀ k, k ≤ 5 → 0 < k → 0 < depth (masked true none [40, 34, 92, 34, 34, 41]) k := by decide
  have hclose : ClosesAt (masked true none [40, 34, 92, 34, 34, 41]) 5 :=
    ⟨by decide, by decide, by decide, fun k h0 h5 => hinner k h5 h0⟩
  have := h.found 5 hclose
  rw [hnone] at this
  simp at this

end Toolwhip.Distcc.MacroEval
