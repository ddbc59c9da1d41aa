import Toolwhip.Distcc.HostSpec

/-! # What host tokens are read as

A token that is read as a host is of the grammar, unless a number in it is missing, has a
sign or is too large, something is left over after it, or it is not separated from a
comment. -/

namespace Toolwhip.Distcc
open Lib.CNumber Lib.ThrowingFold List
set_option autoImplicit false

section Slips
variable (tok : List UInt8)

def BadLimit (after : List UInt8) : Prop :=
  (∀ b ∈ after.head?, b = 43 ∨ b = 45) ∨ 2 ^ 31 ≤ number 10 (after.takeWhile (isDigit 10))

def BadPort (after : List UInt8) : Prop :=
  (∀ b ∈ after.head?, b = 43 ∨ b = 45 ∨ b = 47 ∨ b = 44) ∨
  after.takeWhile (isDigit 10) ≠ [] ∧
    ¬ (0 < number 10 (after.takeWhile (isDigit 10)) ∧
      number 10 (after.takeWhile (isDigit 10)) < 2 ^ 16)

def LeftOver (left : List UInt8) : Prop := left ≠ [] ∧ ∀ b ∈ left.head?, b ≠ 44

def NoDigit (left : List UInt8) : Prop := ∀ b ∈ left.head?, isDigit 10 b = false

def LocalSlip : Prop :=
  (∃ after, tok = ascii "localhost" ++ 47 :: after ∧ BadLimit after) ∨
  ∃ l n left, tok = ascii "localhost" ++ (l ++ left) ∧ LimitText 2 l n ∧ l ≠ [] ∧ left ≠ [] ∧
    NoDigit left

def SshSlip : Prop :=
  ∃ user name, (∀ b ∈ user, b ≠ 64) ∧ IsName name ∧
    ((∃ after, tok = user ++ 64 :: (name ++ 47 :: after) ∧ BadLimit after) ∨
    ∃ l n c command options left,
      tok = user ++ 64 :: (name ++ (l ++ (c ++ (optionsText options ++ left)))) ∧
      LimitText 4 l n ∧ CommandText c command ∧ Compatible options ∧ LeftOver left ∧
      (options = [] → c = [] ∧ l ≠ [] ∧ NoDigit left ∧ ∀ b ∈ left.head?, b ≠ 58))

def TcpSlip : Prop :=
  ∃ name l n, IsName name ∧ LimitText 4 l n ∧
    ((∃ after, tok = name ++ (l ++ 58 :: after) ∧ BadPort after) ∨
    ∃ p port, PortText p port ∧
      ((∃ after, tok = name ++ (l ++ (p ++ 47 :: after)) ∧ BadLimit after) ∨
      ∃ l' n' options left, tok = name ++ (l ++ (p ++ (l' ++ (optionsText options ++ left)))) ∧
        LimitText n l' n' ∧ Compatible options ∧ LeftOver left ∧
        (options = [] → NoDigit left ∧
          ((l' ≠ [] ∧ (l ≠ [] ∨ p ≠ [])) ∨
          (l' = [] ∧ p = [] ∧ l ≠ [] ∧ ∀ b ∈ left.head?, b ≠ 47 ∧ b ≠ 58)))))

def HostSlip : Prop :=
  IsLocalhost tok ∧ LocalSlip tok ∨
  ¬ IsLocalhost tok ∧ 64 ∈ tok ∧ SshSlip tok ∨
  ¬ IsLocalhost tok ∧ 64 ∉ tok ∧ TcpSlip tok

/-- The token would have to be separated from a comment, or ends where its host name
should be. -/
def Unseparated : Prop :=
  (∃ host, HostSpec tok host False) ∨ ∃ user, tok = user ++ [64] ∧ 64 ∉ user

end Slips

section Reads
variable {longBits : Nat} {t rest u : List UInt8} {slots n : Int}
variable {b : UInt8} {host host' : Hostdef} {after : List UInt8}

def Clean (t : List UInt8) : Prop := ∀ b ∈ t, isspace b = false ∧ b ≠ 35

theorem Clean.right {s : List UInt8} (h : Clean (s ++ t)) : Clean t :=
  fun b hb => h b (mem_append_right s hb)

theorem Clean.head (h : Clean t) (hb : b ∈ t.head?) : isspace b = false :=
  (h b (mem_of_mem_head? hb)).1

theorem Clean.no_blank (h : Clean t) (hb : b ∈ t) : b ∉ blanks := by
  intro hblank
  have hspace := (blank_facts hblank).2.1
  rw [(h b hb).1] at hspace
  cases hspace

theorem digits_end (hends : EndsBefore rest) (after : List UInt8) :
    ∀ b ∈ (after.dropWhile (isDigit 10) ++ rest).head?, isDigit 10 b = false := by
  intro b hb
  rcases mem_head_append hb with hb | ⟨_, hb⟩
  · have hnot := head?_dropWhile_not (isDigit 10) after
    rw [Option.mem_def.mp hb] at hnot
    simpa using hnot
  · exact (hends.facts hb).1

theorem isDecimal_takeWhile (hne : after.takeWhile (isDigit 10) ≠ []) :
    IsDecimal (after.takeWhile (isDigit 10)) (number 10 (after.takeWhile (isDigit 10))) :=
  ⟨hne, fun _ hb => mem_takeWhile_imp hb, rfl⟩

theorem takeWhile_dropWhile (p : UInt8 → Bool) (t : List UInt8) :
    t = t.takeWhile p ++ t.dropWhile p :=
  List.takeWhile_append_dropWhile.symm

theorem no_number (ht : Clean t) (hne : t ≠ []) (hnone : t.takeWhile (isDigit 10) = [])
    (hsign : ∀ b ∈ t.head?, b ≠ 45 ∧ b ≠ 43) :
    ∀ b ∈ (t ++ rest).head?, isspace b = false ∧ (b ≠ 45 ∧ b ≠ 43) ∧ isDigit 10 b = false := by
  obtain ⟨c, t, rfl⟩ := exists_cons_of_ne_nil hne
  intro b hb
  obtain rfl : c = b := Option.some.inj hb
  refine ⟨ht.head rfl, hsign c rfl, ?_⟩
  by_cases hdigit : isDigit 10 c = true
  · rw [takeWhile_cons_of_pos hdigit] at hnone
    cases hnone
  · simpa using hdigit

theorem dcc_parse_multiplier_reads (hlong : 32 ≤ longBits) (hends : EndsBefore rest)
    (ht : Clean t) (hbad : ∀ after, t = 47 :: after → ¬ BadLimit after)
    (hequals : ∀ b ∈ t.head?, b ≠ 61)
    (h : dcc_parse_multiplier longBits (t ++ rest) slots = .ok (n, u)) :
    ∃ l left, t = l ++ left ∧ u = left ++ rest ∧ LimitText slots l n ∧
      (l = [] → ∀ b ∈ left.head?, b ≠ 47) ∧ (l ≠ [] → NoDigit left) := by
  by_cases hslash : 47 ∈ t.head?
  · obtain ⟨after, rfl⟩ := List.head?_eq_some_iff.mp hslash
    have hgood := hbad after rfl
    unfold BadLimit at hgood
    rw [not_or] at hgood
    have hclean : Clean after := fun b hb => ht b (mem_cons_of_mem _ hb)
    by_cases hnone : after.takeWhile (isDigit 10) = []
    · -- there is no number, so its value is 0
      have hne : after ≠ [] := by
        rintro rfl
        exact hgood.1 (by simp)
      have hsign : ∀ b ∈ after.head?, b ≠ 45 ∧ b ≠ 43 := by
        intro b hb
        constructor
        · rintro rfl
          apply hgood.1
          intro b' hb'
          exact Or.inr (Option.some.inj (hb'.symm.trans hb))
        · rintro rfl
          apply hgood.1
          intro b' hb'
          exact Or.inl (Option.some.inj (hb'.symm.trans hb))
      have hread : strtol longBits 10 (after ++ rest) = (0, after ++ rest) :=
        strtol_none (by decide) (no_number hclean hne hnone hsign)
      have hval : atoi longBits (after ++ rest) = 0 := by
        unfold atoi
        rw [hread]
        rfl
      rw [cons_append, dcc_parse_multiplier] at h
      simp [hval] at h
    · have hdecimal := isDecimal_takeWhile hnone
      have hlt : number 10 (after.takeWhile (isDigit 10)) < 2 ^ 31 := by
        omega
      have hsplit : after ++ rest =
          after.takeWhile (isDigit 10) ++ (after.dropWhile (isDigit 10) ++ rest) := by
        rw [← append_assoc, ← takeWhile_dropWhile]
      by_cases hzero : number 10 (after.takeWhile (isDigit 10)) = 0
      · have hval := atoi_decimal hlong hdecimal hlt (digits_end hends after)
        rw [hzero, ← hsplit] at hval
        rw [cons_append, dcc_parse_multiplier] at h
        simp [hval] at h
      have hpos : 0 < number 10 (after.takeWhile (isDigit 10)) := by omega
      have hread : dcc_parse_multiplier longBits (47 :: _) slots = .ok _ :=
        dcc_parse_multiplier_decimal hlong (Or.inl rfl) hdecimal hpos hlt (digits_end hends after)
      rw [cons_append, hsplit, hread] at h
      obtain ⟨rfl, rfl⟩ := Prod.mk.inj (Except.ok.inj h)
      refine ⟨47 :: after.takeWhile (isDigit 10), after.dropWhile (isDigit 10), ?_, rfl,
        .given hdecimal hpos hlt, ?_, ?_⟩
      · rw [cons_append, ← takeWhile_dropWhile]
      · intro hnil
        cases hnil
      · intro _ b hb
        apply digits_end hends after b
        rw [head?_append, Option.mem_def.mp hb]
        rfl
  · have habsent : ∀ b ∈ (t ++ rest).head?, b ≠ 47 ∧ b ≠ 61 := by
      intro b hb
      rcases mem_head_append hb with hb | ⟨_, hb⟩
      · refine ⟨?_, hequals b hb⟩
        rintro rfl
        exact hslash hb
      · exact ⟨(hends.facts hb).2.1, (hends.facts hb).2.2.1⟩
    rw [dcc_parse_multiplier_absent habsent] at h
    obtain ⟨rfl, rfl⟩ := Prod.mk.inj (Except.ok.inj h)
    refine ⟨[], t, rfl, rfl, .absent, ?_, fun hne => absurd rfl hne⟩
    rintro _ b hb rfl
    exact hslash hb

theorem parsePort_noNumber (hclean : Clean after) (hnone : after.takeWhile (isDigit 10) = [])
    (hgood : ¬ ∀ b ∈ after.head?, b = 43 ∨ b = 45 ∨ b = 47 ∨ b = 44) :
    parsePort longBits (58 :: (after ++ rest)) = .error .EXIT_BAD_HOSTSPEC := by
  obtain ⟨c, after, rfl⟩ : ∃ c tail, after = c :: tail := by
    apply exists_cons_of_ne_nil
    rintro rfl
    exact hgood (by simp)
  have hc : ¬ (c = 43 ∨ c = 45 ∨ c = 47 ∨ c = 44) := by
    intro hc
    apply hgood
    intro b hb
    obtain rfl : c = b := Option.some.inj hb
    exact hc
  rw [not_or, not_or, not_or] at hc
  have hsign : ∀ b ∈ (c :: after).head?, b ≠ 45 ∧ b ≠ 43 := by
    intro b hb
    obtain rfl : c = b := Option.some.inj hb
    exact ⟨hc.2.1, hc.1⟩
  have hread : strtol longBits 10 (c :: after ++ rest) = (0, c :: after ++ rest) :=
    strtol_none (by decide) (no_number hclean (cons_ne_nil _ _) hnone hsign)
  have hspace : isspace c = false := hclean.head rfl
  rw [parsePort, hread, cons_append]
  simp [hspace, hc.2.2.1, hc.2.2.2]

theorem parsePort_number_reads {digits left : List UInt8} {value : Nat} (hlong : 32 ≤ longBits)
    (hdigits : IsDecimal digits value) (hlt : value < 2 ^ 16)
    (hend : ∀ b ∈ (left ++ rest).head?, isDigit 10 b = false) (hclean : Clean left)
    (h : parsePort longBits (58 :: (digits ++ (left ++ rest))) = .ok (n, u)) :
    n = value ∧ u = left ++ rest ∧ ∀ b ∈ left.head?, b = 47 ∨ b = 44 := by
  have hlt31 : value < 2 ^ 31 := by omega
  have hread : strtol longBits 10 _ = _ := strtol_decimal hlong hdigits hlt31 hend
  rw [parsePort] at h
  simp only [hread, toInt_ofNat hlt31] at h
  cases left with
  | nil =>
    have hread : n = (value : Int) ∧ u = rest := by
      cases hrest : rest with
      | nil =>
        rw [hrest] at h
        simpa [eq_comm] using h
      | cons c rest' =>
        rw [hrest] at h
        simp only [nil_append] at h
        split at h
        · cases h
        obtain ⟨rfl, rfl⟩ := Prod.mk.inj (Except.ok.inj h)
        exact ⟨rfl, rfl⟩
    refine ⟨hread.1, hread.2, ?_⟩
    intro b hb
    cases hb
  | cons c left =>
    have hspace : isspace c = false := hclean.head rfl
    simp only [cons_append, hspace, Bool.not_false, true_and] at h
    split at h
    · cases h
    rename_i hstop
    obtain ⟨rfl, rfl⟩ := Prod.mk.inj (Except.ok.inj h)
    refine ⟨rfl, rfl, ?_⟩
    intro b hb
    obtain rfl : c = b := Option.some.inj hb
    by_cases hslash : c = 47
    · exact Or.inl hslash
    · exact Or.inr (not_not.mp fun hcomma => hstop ⟨hslash, hcomma⟩)

theorem parsePort_reads (hlong : 32 ≤ longBits) (hends : EndsBefore rest) (ht : Clean t)
    (hbad : ∀ after, t = 58 :: after → ¬ BadPort after)
    (h : parsePort longBits (t ++ rest) = .ok (n, u)) :
    ∃ p left, t = p ++ left ∧ u = left ++ rest ∧ PortText p n ∧
      (p = [] → ∀ b ∈ left.head?, b ≠ 58) ∧ (p ≠ [] → ∀ b ∈ left.head?, b = 47 ∨ b = 44) := by
  by_cases hcolon : 58 ∈ t.head?
  · obtain ⟨after, rfl⟩ := List.head?_eq_some_iff.mp hcolon
    have hgood := hbad after rfl
    unfold BadPort at hgood
    rw [not_or, not_and, not_not] at hgood
    have hclean : Clean after := fun b hb => ht b (mem_cons_of_mem _ hb)
    rw [cons_append] at h
    by_cases hnone : after.takeWhile (isDigit 10) = []
    · rw [parsePort_noNumber hclean hnone hgood.1] at h
      cases h
    have hdecimal := isDecimal_takeWhile hnone
    obtain ⟨hpos, hlt⟩ := hgood.2 hnone
    have hsplit := takeWhile_dropWhile (isDigit 10) after
    have hcleft : Clean (after.dropWhile (isDigit 10)) := by
      rw [hsplit] at hclean
      exact hclean.right
    have hafter : after ++ rest =
        after.takeWhile (isDigit 10) ++ (after.dropWhile (isDigit 10) ++ rest) := by
      rw [← append_assoc, ← hsplit]
    rw [hafter] at h
    obtain ⟨rfl, rfl, hstop⟩ :=
      parsePort_number_reads hlong hdecimal hlt (digits_end hends after) hcleft h
    refine ⟨58 :: after.takeWhile (isDigit 10), _, congrArg (58 :: ·) hsplit, rfl,
      .given hdecimal hpos hlt, ?_, fun _ => hstop⟩
    intro hnil
    cases hnil
  · have habsent : parsePort longBits ([] ++ (t ++ rest)) = .ok (DISTCC_DEFAULT_PORT, t ++ rest) := by
      apply parsePort_text hlong .absent
      · intro _ b hb
        rcases mem_head_append hb with hb | ⟨_, hb⟩
        · rintro rfl
          exact hcolon hb
        · exact (hends.facts hb).2.2.2.1
      · intro hne
        exact absurd rfl hne
    rw [nil_append, h] at habsent
    obtain ⟨rfl, rfl⟩ := Prod.mk.inj (Except.ok.inj habsent)
    refine ⟨[], t, rfl, rfl, .absent, ?_, fun hne => absurd rfl hne⟩
    rintro _ b hb rfl
    exact hcolon hb

theorem part_reads {sep : List UInt8} (hends : EndsBefore rest)
    (hblanks : ∀ b ∈ blanks, sep.contains b = true)
    (hglued : (∀ b ∈ t, sep.contains b = false) → rest.head? ≠ some 35) :
    ∃ part left, t = part ++ left ∧
      dcc_dup_part (t ++ rest) sep = (if part = [] then none else some part, left ++ rest) ∧
      (∀ b ∈ part, sep.contains b = false) ∧ ∀ b ∈ left.head?, sep.contains b = true := by
  let p := fun b => !sep.contains b
  have hpart : ∀ b ∈ t.takeWhile p, sep.contains b = false := by
    intro b hb
    have := mem_takeWhile_imp hb
    simpa [p] using this
  have hleft : ∀ b ∈ (t.dropWhile p).head?, sep.contains b = true := by
    intro b hb
    have hnot := head?_dropWhile_not p t
    rw [Option.mem_def.mp hb] at hnot
    simpa [p] using hnot
  refine ⟨t.takeWhile p, t.dropWhile p, takeWhile_dropWhile p t, ?_, hpart, hleft⟩
  have hstop : ∀ b ∈ (t.dropWhile p ++ rest).head?, sep.contains b = true := by
    intro b hb
    rcases mem_head_append hb with hb | ⟨hnil, hb⟩
    · exact hleft b hb
    rcases hends b hb with rfl | hblank
    · have hall : ∀ b ∈ t, sep.contains b = false := by
        intro b' hb'
        rw [takeWhile_dropWhile p t, hnil, append_nil] at hb'
        exact hpart b' hb'
      exact absurd hb (hglued hall)
    · exact hblanks b hblank
  have hread := dcc_dup_part_append hpart hstop
  rw [← append_assoc, ← takeWhile_dropWhile] at hread
  exact hread

theorem parseCommand_reads (hends : EndsBefore rest) (ht : Clean t)
    (hglued : ∀ after, t = 58 :: after →
      (∀ b ∈ after, (blanks ++ ascii ",").contains b = false) → rest.head? ≠ some 35) :
    ∃ c command left, t = c ++ left ∧ parseCommand (t ++ rest) = (command, left ++ rest) ∧
      CommandText c command ∧ (c = [] → ∀ b ∈ left.head?, b ≠ 58) ∧
      (c ≠ [] → ∀ b ∈ left.head?, b = 44) := by
  by_cases hcolon : 58 ∈ t.head?
  · obtain ⟨after, rfl⟩ := List.head?_eq_some_iff.mp hcolon
    have hblanks : ∀ b ∈ blanks, (blanks ++ ascii ",").contains b = true :=
      fun b hb => (blank_facts hb).2.2.2.1
    obtain ⟨command, left, rfl, hread, hcommand, hleft⟩ := part_reads hends hblanks (hglued after rfl)
    refine ⟨58 :: command, _, left, rfl, hread, .given hcommand, ?_, ?_⟩
    · intro hnil
      cases hnil
    · intro _ b hb
      have hb' : b ∈ 58 :: command ++ left := by
        exact mem_cons_of_mem _ (mem_append_right _ (mem_of_mem_head? hb))
      have hmem := List.contains_iff_mem.mp (hleft b hb)
      rw [mem_append] at hmem
      rcases hmem with hmem | hmem
      · exact absurd hmem (ht.no_blank hb')
      · simpa [ascii] using hmem
  · refine ⟨[], none, t, rfl, ?_, .absent, ?_, fun hne => absurd rfl hne⟩
    · have hread : parseCommand ([] ++ (t ++ rest)) = (none, t ++ rest) := by
        apply parseCommand_text .absent
        · intro _ b hb
          rcases mem_head_append hb with hb | ⟨_, hb⟩
          · rintro rfl
            exact hcolon hb
          · exact (hends.facts hb).2.2.2.1
        · intro hne
          exact absurd rfl hne
      exact hread
    · rintro _ b hb rfl
      exact hcolon hb

theorem readOptions_reads {p : List UInt8} (h : readOptions host p = .ok (host', u)) :
    ∃ options, p = optionsText options ++ u ∧ ∀ b ∈ u.head?, b ≠ 44 := by
  fun_induction readOptions host p with
  | case1 host p ih =>
    obtain ⟨options, rfl, hu⟩ := ih h
    exact ⟨.lzo :: options, rfl, hu⟩
  | case2 host p ih =>
    obtain ⟨options, rfl, hu⟩ := ih h
    exact ⟨.down :: options, rfl, hu⟩
  | case3 host p ih =>
    obtain ⟨options, rfl, hu⟩ := ih h
    exact ⟨.cpp :: options, rfl, hu⟩
  | case4 => cases h
  | case5 host p _ _ _ hother =>
    obtain ⟨rfl, rfl⟩ := Prod.mk.inj (Except.ok.inj h)
    refine ⟨[], rfl, ?_⟩
    intro b hb
    cases p with
    | nil => cases hb
    | cons c p =>
      obtain rfl : c = b := Option.some.inj hb
      rintro rfl
      exact hother p rfl

theorem optionsText_inToken {options : List HostOption}
    (hb : b ∈ optionsText options) : b ≠ 35 ∧ b ∉ blanks := by
  obtain ⟨o, _, hb⟩ := List.mem_flatMap.mp hb
  have hall : (44 :: o.text).all (fun b => b != 35 && !blanks.contains b) = true := by
    cases o <;> decide
  have := List.all_eq_true.mp hall b hb
  simpa using this

theorem dcc_parse_options_reads (hends : EndsBefore rest)
    (hup : host.is_up = true) (h : dcc_parse_options (t ++ rest) host = .ok host') :
    ∃ options left, t = optionsText options ++ left ∧ (∀ b ∈ left.head?, b ≠ 44) ∧
      Compatible options ∧ host' = withOptions options host := by
  have hread : ∃ plain plain' u, readOptions plain (t ++ rest) = .ok (plain', u) := by
    obtain ⟨⟨plain', u⟩, hread, _⟩ := bind_eq_ok.mp h
    exact ⟨_, _, _, hread⟩
  obtain ⟨plain, plain', u, hread⟩ := hread
  obtain ⟨options, htext, hu⟩ := readOptions_reads hread
  rw [htext] at h
  by_cases hcompat : Compatible options
  · rw [dcc_parse_options_text hu hcompat hup] at h
    obtain rfl := Except.ok.inj h
    rcases List.append_eq_append_iff.mp htext with ⟨a, hoptions, hrest⟩ | ⟨a, rfl, rfl⟩
    · -- the options cannot go on after the token
      cases a with
      | nil =>
        refine ⟨options, [], by simp [hoptions], ?_, hcompat, rfl⟩
        intro b hb
        cases hb
      | cons b a =>
        have hmem : b ∈ optionsText options := by simp [hoptions]
        have hnot := optionsText_inToken hmem
        rcases hends b (by rw [hrest]; rfl) with hb | hb
        · exact absurd hb hnot.1
        · exact absurd hb hnot.2
    · refine ⟨options, a, rfl, ?_, hcompat, rfl⟩
      intro b hb
      apply hu
      rw [head?_append, Option.mem_def.mp hb]
      rfl
  · rw [dcc_parse_options_incompatible hu hcompat] at h
    cases h

end Reads

section Tokens
variable {longBits : Nat} {tok rest : List UInt8} {host : Hostdef}
variable {t : List UInt8}

theorem name_end (ht : Clean t) (hhead : ∀ b ∈ t.head?, nameEnds.contains b = true)
    {b : UInt8} (hb : b ∈ t.head?) : b = 47 ∨ b = 58 ∨ b = 44 := by
  have hmem := List.contains_iff_mem.mp (hhead b hb)
  have hblank := ht.no_blank (mem_of_mem_head? hb)
  unfold nameEnds at hmem
  simp only [mem_append] at hmem
  rcases hmem with (hmem | hmem) | hmem
  · rcases List.mem_cons.mp hmem with rfl | hmem
    · exact Or.inl rfl
    · exact Or.inr (Or.inl (List.mem_singleton.mp hmem))
  · exact absurd hmem hblank
  · exact Or.inr (Or.inr (List.mem_singleton.mp hmem))

theorem nil_of_name_end (ht : Clean t)
    (hhead : ∀ b ∈ t.head?, nameEnds.contains b = true) (hslash : ∀ b ∈ t.head?, b ≠ 47)
    (hcolon : ∀ b ∈ t.head?, b ≠ 58) (hcomma : ∀ b ∈ t.head?, b ≠ 44) : t = [] := by
  cases t with
  | nil => rfl
  | cons c tail =>
    rcases name_end ht hhead rfl with rfl | rfl | rfl
    · exact absurd rfl (hslash 47 rfl)
    · exact absurd rfl (hcolon 58 rfl)
    · exact absurd rfl (hcomma 44 rfl)

theorem blanks_end_name : ∀ b ∈ blanks, nameEnds.contains b = true :=
  fun _ hb => (blank_facts hb).2.2.1

section
variable (hlong : 32 ≤ longBits) (hends : EndsBefore rest) (hclean : Clean tok)
include hlong hends hclean

theorem TcpSpec.of_reads (hne : tok ≠ []) (hslip : ¬ TcpSlip tok)
    (hglued : rest.head? = some 35 → ∀ host, ¬ TcpSpec tok host False)
    (h : dcc_parse_tcp_host longBits (newHost tok) (tok ++ rest) = .ok host) :
    ∃ closed, TcpSpec tok host closed := by
  have hopen : (∀ b ∈ tok, nameEnds.contains b = false) → rest.head? ≠ some 35 := by
    intro hall hcomment
    apply hglued hcomment
    exact ⟨tok, [], 4, [], _, [], 4, [], by simp [optionsText], ⟨hne, hall⟩, .absent, .absent,
      .absent, .none, by simp, rfl⟩
  obtain ⟨name, t₁, htok, hread, hname, hhead⟩ := part_reads hends blanks_end_name hopen
  unfold dcc_parse_tcp_host at h
  rw [hread] at h
  by_cases hnil : name = []
  · simp [hnil] at h
  simp only [if_neg hnil] at h
  have hisname : IsName name := ⟨hnil, hname⟩
  have hclean₁ : Clean t₁ := by
    rw [htok] at hclean
    exact hclean.right
  obtain ⟨⟨n, u₁⟩, hfirst, h⟩ := bind_eq_ok.mp h
  have hequals : ∀ b ∈ t₁.head?, b ≠ 61 := by
    intro b hb
    rcases name_end hclean₁ hhead hb with rfl | rfl | rfl <;> decide
  have hbad : ∀ after, t₁ = 47 :: after → ¬ BadLimit after := by
    intro after hafter hbad
    apply hslip
    exact ⟨name, [], 4, hisname, .absent, Or.inr ⟨[], _, .absent,
      Or.inl ⟨after, by simp [htok, hafter], hbad⟩⟩⟩
  obtain ⟨l, t₂, ht₁, rfl, hl, hl0, hl1⟩ :=
    dcc_parse_multiplier_reads hlong hends hclean₁ hbad hequals hfirst
  have hclean₂ : Clean t₂ := by
    rw [ht₁] at hclean₁
    exact hclean₁.right
  obtain ⟨⟨port, u₂⟩, hport, h⟩ := bind_eq_ok.mp h
  have hbadPort : ∀ after, t₂ = 58 :: after → ¬ BadPort after := by
    intro after hafter hbad
    apply hslip
    exact ⟨name, l, n, hisname, hl, Or.inl ⟨after, by simp [htok, ht₁, hafter], hbad⟩⟩
  obtain ⟨p, t₃, ht₂, rfl, hp, hp0, hp1⟩ := parsePort_reads hlong hends hclean₂ hbadPort hport
  have hclean₃ : Clean t₃ := by
    rw [ht₂] at hclean₂
    exact hclean₂.right
  obtain ⟨⟨n', u₃⟩, hsecond, h⟩ := bind_eq_ok.mp h
  have hbad' : ∀ after, t₃ = 47 :: after → ¬ BadLimit after := by
    intro after hafter hbad
    apply hslip
    exact ⟨name, l, n, hisname, hl, Or.inr ⟨p, port, hp,
      Or.inl ⟨after, by simp [htok, ht₁, ht₂, hafter], hbad⟩⟩⟩
  -- a second limit with `=` is left over after the first
  have hequals' : ∀ b ∈ t₃.head?, b ≠ 61 := by
    rintro b hb rfl
    by_cases hpnil : p = []
    · rw [hpnil, nil_append] at ht₂
      by_cases hlnil : l = []
      · rw [hlnil, nil_append] at ht₁
        rw [← ht₂, ← ht₁] at hb
        exact hequals 61 hb rfl
      apply hslip
      have hleft : LeftOver t₃ := by
        refine ⟨?_, ?_⟩
        · rintro rfl
          cases hb
        · intro b' hb'
          obtain rfl := Option.some.inj (hb.symm.trans hb')
          decide
      refine ⟨name, l, n, hisname, hl, Or.inr ⟨[], _, .absent, Or.inr ⟨[], n, [], t₃,
        by simp [htok, ht₁, ht₂, optionsText], .absent, .none, hleft, ?_⟩⟩⟩
      intro _
      refine ⟨?_, Or.inr ⟨rfl, rfl, hlnil, ?_⟩⟩
      · intro b' hb'
        obtain rfl := Option.some.inj (hb.symm.trans hb')
        decide
      · intro b' hb'
        obtain rfl := Option.some.inj (hb.symm.trans hb')
        decide
    · rcases hp1 hpnil 61 hb with h | h <;> cases h
  obtain ⟨l', t₄, ht₃, rfl, hl', hl'0, hl'1⟩ :=
    dcc_parse_multiplier_reads hlong hends hclean₃ hbad' hequals' hsecond
  obtain ⟨host', hoptions, h⟩ := bind_eq_ok.mp h
  obtain ⟨options, left, ht₄, hcomma, hcompat, rfl⟩ := dcc_parse_options_reads hends rfl hoptions
  obtain rfl := Except.ok.inj h
  have htext : tok = name ++ (l ++ (p ++ (l' ++ (optionsText options ++ left)))) := by
    rw [htok, ht₁, ht₂, ht₃, ht₄]
  by_cases hleft : left = []
  · rw [hleft, append_nil] at htext
    exact ⟨_, name, l, n, p, port, l', n', options, htext, hisname, hl, hp, hl', hcompat,
      Iff.rfl, rfl⟩
  exfalso
  apply hslip
  refine ⟨name, l, n, hisname, hl, Or.inr ⟨p, port, hp, Or.inr ⟨l', n', options, left, htext,
    hl', hcompat, ⟨hleft, hcomma⟩, ?_⟩⟩⟩
  rintro rfl
  have ht₄ : t₄ = left := ht₄
  by_cases hl'nil : l' = []
  · have ht₃ : t₃ = left := by
      rw [ht₃, hl'nil, ht₄]
      rfl
    have hslash : ∀ b ∈ left.head?, b ≠ 47 := by
      rw [← ht₄]
      exact hl'0 hl'nil
    have hpnil : p = [] := by
      by_contra hpne
      obtain ⟨c, tail, rfl⟩ := exists_cons_of_ne_nil hleft
      rw [ht₃] at hp1
      rcases hp1 hpne c rfl with rfl | rfl
      · exact hslash 47 rfl rfl
      · exact hcomma 44 rfl rfl
    have ht₂ : t₂ = left := by
      rw [ht₂, hpnil, ht₃]
      rfl
    have hcolon : ∀ b ∈ left.head?, b ≠ 58 := by
      rw [← ht₃]
      exact hp0 hpnil
    have hlne : l ≠ [] := by
      rintro rfl
      have ht₁ : t₁ = left := by
        rw [ht₁, ht₂]
        rfl
      rw [ht₁] at hclean₁ hhead
      exact hleft (nil_of_name_end hclean₁ hhead hslash hcolon hcomma)
    have hdigit : NoDigit left := by
      rw [← ht₂]
      exact hl1 hlne
    exact ⟨hdigit, Or.inr ⟨hl'nil, hpnil, hlne, fun b hb => ⟨hslash b hb, hcolon b hb⟩⟩⟩
  · have hdigit : NoDigit left := by
      rw [← ht₄]
      exact hl'1 hl'nil
    refine ⟨hdigit, Or.inl ⟨hl'nil, ?_⟩⟩
    by_contra hnone
    rw [not_or, not_not, not_not] at hnone
    obtain ⟨hlnil, hpnil⟩ := hnone
    -- then the first limit would have been read instead of the second
    have ht₃' : t₂ = l' ++ t₄ := by
      rw [ht₂, hpnil, ht₃]
      rfl
    obtain ⟨c, tail, hc⟩ := exists_cons_of_ne_nil hl'nil
    have hc47 : c = 47 := hl'.head (by rw [hc]; rfl)
    apply hl0 hlnil c _ hc47
    rw [ht₃', hc]
    rfl

theorem SshSpec.of_reads (hat : 64 ∈ tok) (hslip : ¬ SshSlip tok) (hglued : rest.head? = some 35 →
      (∀ host, ¬ SshSpec tok host False) ∧ ∀ user, tok = user ++ [64] → 64 ∈ user)
    (h : dcc_parse_ssh_host longBits (newHost tok) (tok ++ rest) = .ok host) :
    ∃ closed, SshSpec tok host closed := by
  obtain ⟨user, t₀, htok, huser⟩ := eq_append_cons_of_mem hat
  have huser' : ∀ b ∈ user, b ≠ 64 := by
    rintro b hb rfl
    exact huser hb
  have hclean₀ : Clean t₀ := by
    rw [htok] at hclean
    exact fun b hb => hclean b (mem_append_right _ (mem_cons_of_mem _ hb))
  have hreadUser : dcc_dup_part (tok ++ rest) (ascii "@") =
      (if user = [] then none else some user, 64 :: (t₀ ++ rest)) := by
    rw [htok, append_assoc, cons_append]
    apply dcc_dup_part_append
    · intro b hb
      have hne := huser' b hb
      simp [ascii, hne]
    · intro b hb
      cases hb
      decide
  have hopen : (∀ b ∈ t₀, nameEnds.contains b = false) → rest.head? ≠ some 35 := by
    intro hall hcomment
    by_cases hnil : t₀ = []
    · rw [hnil] at htok
      exact huser ((hglued hcomment).2 user htok)
    apply (hglued hcomment).1
    exact ⟨user, t₀, [], 4, [], none, [], by simp [htok, optionsText], huser', ⟨hnil, hall⟩,
      .absent, .absent, .none, by simp, rfl⟩
  obtain ⟨name, t₁, ht₀, hread, hname, hhead⟩ := part_reads hends blanks_end_name hopen
  unfold dcc_parse_ssh_host at h
  rw [hreadUser] at h
  simp only [hread] at h
  by_cases hnil : name = []
  · simp [hnil] at h
  simp only [if_neg hnil] at h
  have hisname : IsName name := ⟨hnil, hname⟩
  have hclean₁ : Clean t₁ := by
    rw [ht₀] at hclean₀
    exact hclean₀.right
  obtain ⟨⟨n, u₁⟩, hlimit, h⟩ := bind_eq_ok.mp h
  have hequals : ∀ b ∈ t₁.head?, b ≠ 61 := by
    intro b hb
    rcases name_end hclean₁ hhead hb with rfl | rfl | rfl <;> decide
  have hbad : ∀ after, t₁ = 47 :: after → ¬ BadLimit after := by
    intro after hafter hbad
    apply hslip
    exact ⟨user, name, huser', hisname, Or.inl ⟨after, by simp [htok, ht₀, hafter], hbad⟩⟩
  obtain ⟨l, t₂, ht₁, rfl, hl, hl0, hl1⟩ :=
    dcc_parse_multiplier_reads hlong hends hclean₁ hbad hequals hlimit
  have hclean₂ : Clean t₂ := by
    rw [ht₁] at hclean₁
    exact hclean₁.right
  have hcommandOpen : ∀ after, t₂ = 58 :: after →
      (∀ b ∈ after, (blanks ++ ascii ",").contains b = false) → rest.head? ≠ some 35 := by
    intro after hafter hall hcomment
    apply (hglued hcomment).1
    exact ⟨user, name, l, n, 58 :: after, _, [], by simp [htok, ht₀, ht₁, hafter, optionsText],
      huser', hisname, hl, .given hall, .none, by simp, rfl⟩
  obtain ⟨c, command, t₃, ht₂, hcommand, hc, hc0, hc1⟩ :=
    parseCommand_reads hends hclean₂ hcommandOpen
  simp only [hcommand] at h
  obtain ⟨host', hoptions, h⟩ := bind_eq_ok.mp h
  obtain ⟨options, left, ht₃, hcomma, hcompat, rfl⟩ := dcc_parse_options_reads hends rfl hoptions
  obtain rfl := Except.ok.inj h
  have htext : tok = user ++ 64 :: (name ++ (l ++ (c ++ (optionsText options ++ left)))) := by
    rw [htok, ht₀, ht₁, ht₂, ht₃]
  by_cases hleft : left = []
  · rw [hleft, append_nil] at htext
    exact ⟨_, user, name, l, n, c, command, options, htext, huser', hisname, hl, hc, hcompat,
      Iff.rfl, rfl⟩
  exfalso
  apply hslip
  refine ⟨user, name, huser', hisname, Or.inr ⟨l, n, c, command, options, left, htext, hl, hc,
    hcompat, ⟨hleft, hcomma⟩, ?_⟩⟩
  rintro rfl
  have ht₃ : t₃ = left := ht₃
  have hcnil : c = [] := by
    by_contra hcne
    obtain ⟨b, tail, rfl⟩ := exists_cons_of_ne_nil hleft
    rw [ht₃] at hc1
    exact hcomma b rfl (hc1 hcne b rfl)
  have ht₂ : t₂ = left := by
    rw [ht₂, hcnil, ht₃]
    rfl
  have hcolon : ∀ b ∈ left.head?, b ≠ 58 := by
    rw [← ht₃]
    exact hc0 hcnil
  have hlne : l ≠ [] := by
    intro hlnil
    have ht₁ : t₁ = left := by
      rw [ht₁, hlnil, ht₂]
      rfl
    have hslash : ∀ b ∈ left.head?, b ≠ 47 := by
      rw [← ht₂]
      exact hl0 hlnil
    rw [ht₁] at hclean₁ hhead
    exact hleft (nil_of_name_end hclean₁ hhead hslash hcolon hcomma)
  have hdigit : NoDigit left := by
    rw [← ht₂]
    exact hl1 hlne
  exact ⟨hcnil, hlne, hdigit, hcolon⟩

theorem LocalSpec.of_reads (hlocal : IsLocalhost tok) (hslip : ¬ LocalSlip tok)
    (h : dcc_parse_localhost longBits (newHost tok) (tok ++ rest) = .ok host) :
    LocalSpec tok host := by
  obtain ⟨t, htok, hhead⟩ : ∃ t, tok = ascii "localhost" ++ t ∧ ∀ b ∈ t.head?, b = 47 := by
    rcases hlocal with htok | ⟨after, htok⟩
    · exact ⟨[], by rw [htok, append_nil], by simp⟩
    · exact ⟨47 :: after, htok, by simp⟩
  have hcleant : Clean t := by
    rw [htok] at hclean
    exact hclean.right
  have hdrop : (tok ++ rest).drop 9 = t ++ rest := by
    rw [htok, append_assoc]
    rfl
  unfold dcc_parse_localhost at h
  rw [hdrop] at h
  obtain ⟨⟨n, u⟩, hlimit, h⟩ := bind_eq_ok.mp h
  obtain rfl := Except.ok.inj h
  have hequals : ∀ b ∈ t.head?, b ≠ 61 := by
    intro b hb
    rw [hhead b hb]
    decide
  have hbad : ∀ after, t = 47 :: after → ¬ BadLimit after := by
    intro after hafter hbad
    apply hslip
    exact Or.inl ⟨after, by rw [htok, hafter], hbad⟩
  obtain ⟨l, left, ht, rfl, hl, hl0, hl1⟩ :=
    dcc_parse_multiplier_reads hlong hends hcleant hbad hequals hlimit
  have hlnil : left ≠ [] → l ≠ [] := by
    intro hleft hlnil
    obtain ⟨b, tail, rfl⟩ := exists_cons_of_ne_nil hleft
    have ht : t = b :: tail := by rw [ht, hlnil, nil_append]
    rw [ht] at hhead
    exact hl0 hlnil b rfl (hhead b rfl)
  by_cases hleft : left = []
  · refine ⟨l, n, ?_, hl, rfl⟩
    rw [htok, ht, hleft, append_nil]
  exfalso
  apply hslip
  refine Or.inr ⟨l, n, left, ?_, hl, hlnil hleft, hleft, hl1 (hlnil hleft)⟩
  rw [htok, ht]

end

end Tokens
end Toolwhip.Distcc
