import Toolwhip.Distcc.HostSlips

/-! # Which host lists are accepted

A text without slips is accepted exactly if each of its words is a keyword or a host
specification, and there is a host; the list then has the hosts of the words in order. -/

namespace Toolwhip.Distcc
open Lib Lib.CNumber Lib.ThrowingFold List
set_option autoImplicit false

/-- The text without what stands between a `#` and the end of its line. -/
def dropComments (inComment : Bool) : List UInt8 → List UInt8
  | [] => []
  | c :: text =>
    match inComment with
    | true => if c = 10 ∨ c = 13 then c :: dropComments false text else dropComments true text
    | false => if c = 35 then dropComments true text else c :: dropComments false text

def words (text : List UInt8) : List (List UInt8) := (text.splitOnP isspace).filter (· ≠ [])

section Words
variable {text tok rest : List UInt8} {left : Nat}

theorem words_space {c : UInt8} (hc : isspace c = true) (text : List UInt8) :
    words (c :: text) = words text := by
  unfold words
  rw [splitOnP_cons_eq_if_modifyHead, if_pos hc]
  simp

theorem words_append (hne : tok ≠ []) (htok : Clean tok)
    (hrest : ∀ b ∈ rest.head?, isspace b = true) : words (tok ++ rest) = tok :: words rest := by
  have hnone : ∀ b ∈ tok, isspace b = false := fun b hb => (htok b hb).1
  cases rest with
  | nil =>
    unfold words
    rw [append_nil, splitOnP_eq_singleton hnone]
    simp [hne]
  | cons c rest =>
    have hc := hrest c rfl
    rw [words_space hc]
    unfold words
    rw [splitOnP_append_cons_of_forall_mem hnone c hc, filter_cons_of_pos (by simp [hne])]

theorem dropComments_true (text : List UInt8) :
    dropComments true text = dropComments false (text.dropWhile fun b => b ≠ 10 ∧ b ≠ 13) := by
  induction text with
  | nil => rfl
  | cons c text ih =>
    rw [dropComments]
    by_cases hc : c = 10 ∨ c = 13
    · rcases hc with rfl | rfl <;> rfl
    · rw [if_neg hc, dropWhile_cons_of_pos (by simpa [not_or] using hc), ih]

theorem dropComments_append (htok : Clean tok) (rest : List UInt8) :
    dropComments false (tok ++ rest) = tok ++ dropComments false rest := by
  induction tok with
  | nil => rfl
  | cons c tok ih =>
    rw [cons_append, dropComments, if_neg (htok c (by simp)).2,
      ih fun b hb => htok b (mem_cons_of_mem _ hb)]
    rfl

theorem dropComments_head (hends : EndsBefore rest) :
    ∀ b ∈ (dropComments false rest).head?, isspace b = true := by
  cases rest with
  | nil =>
    intro b hb
    cases hb
  | cons c rest =>
    rw [dropComments]
    rcases hends c rfl with rfl | hblank
    · -- a comment ends with its line
      rw [if_pos rfl, dropComments_true]
      intro b hb
      cases htail : rest.dropWhile fun b => b ≠ 10 ∧ b ≠ 13 with
      | nil =>
        rw [htail] at hb
        cases hb
      | cons d tail =>
        have hnot := head?_dropWhile_not (fun b : UInt8 => decide (b ≠ 10 ∧ b ≠ 13)) rest
        rw [htail] at hnot hb
        have hd : d = 10 ∨ d = 13 := by
          simpa [or_iff_not_imp_left] using hnot
        rcases hd with rfl | rfl
        · obtain rfl := Option.some.inj hb
          decide
        · obtain rfl := Option.some.inj hb
          decide
    · have hne : c ≠ 35 := by
        rintro rfl
        revert hblank
        decide
      rw [if_neg hne]
      intro b hb
      obtain rfl := Option.some.inj hb
      exact (blank_facts hblank).2.1

def Plain (t : Token) : Prop := 11 ∉ t.text

theorem blank_of_isspace {b : UInt8} (h : isspace b = true) : b = 11 ∨ b ∈ blanks := by
  unfold isspace at h
  simp only [Bool.or_eq_true, beq_iff_eq, Bool.and_eq_true, decide_eq_true_eq] at h
  rcases h with rfl | ⟨hle, hge⟩
  · exact Or.inr (by decide)
  have hle : 9 ≤ b.toNat := hle
  have hge : b.toNat ≤ 13 := hge
  have hval : b.toNat = 9 ∨ b.toNat = 10 ∨ b.toNat = 11 ∨ b.toNat = 12 ∨ b.toNat = 13 := by omega
  rcases hval with hval | hval | hval | hval | hval
  · obtain rfl : b = 9 := UInt8.toNat_inj.mp hval
    exact Or.inr (by decide)
  · obtain rfl : b = 10 := UInt8.toNat_inj.mp hval
    exact Or.inr (by decide)
  · exact Or.inl (UInt8.toNat_inj.mp hval)
  · obtain rfl : b = 12 := UInt8.toNat_inj.mp hval
    exact Or.inr (by decide)
  · obtain rfl : b = 13 := UInt8.toNat_inj.mp hval
    exact Or.inr (by decide)

theorem clean_of_inToken {t : Token} (ht : ∀ b ∈ t.text, inToken b = true) (hplain : Plain t) :
    Clean t.text := by
  intro b hb
  have hin := ht b hb
  unfold inToken at hin
  rw [Bool.not_eq_true', contains_cons, Bool.or_eq_false_iff] at hin
  refine ⟨?_, by simpa using hin.1⟩
  by_contra hspace
  rw [Bool.not_eq_false] at hspace
  rcases blank_of_isspace hspace with rfl | hblank
  · exact hplain hb
  rw [List.contains_iff_mem.mpr hblank] at hin
  exact Bool.noConfusion hin.2

theorem tokensIn_spec (left : Nat) (text : List UInt8) :
    ∀ t ∈ tokensIn left text, t.text ≠ [] ∧ (∀ b ∈ t.text, inToken b = true) ∧
      EndsBefore t.rest := by
  induction left generalizing text with
  | zero =>
    intro t ht
    cases ht
  | succ left ih =>
    cases text with
    | nil =>
      intro t ht
      cases ht
    | cons c text =>
      rw [tokensIn]
      by_cases hcomment : c = 35
      · rw [if_pos hcomment]
        exact ih _
      rw [if_neg hcomment]
      by_cases hspace : isspace c = true
      · rw [if_pos hspace]
        exact ih _
      rw [if_neg hspace]
      intro t ht
      rcases List.mem_cons.mp ht with rfl | ht
      · have hc : inToken c = true := by
          unfold inToken
          rw [Bool.not_eq_true', contains_cons, Bool.or_eq_false_iff]
          refine ⟨by simpa using hcomment, ?_⟩
          by_contra hblank
          rw [Bool.not_eq_false] at hblank
          exact hspace (blank_facts (List.contains_iff_mem.mp hblank)).2.1
        refine ⟨?_, ?_, ?_⟩
        · simp only [takeWhile_cons_of_pos hc]
          exact cons_ne_nil _ _
        · intro b hb
          exact mem_takeWhile_imp hb
        · intro b hb
          have hnot := head?_dropWhile_not inToken (c :: text)
          rw [Option.mem_def.mp hb] at hnot
          have hin : (35 :: blanks).contains b = true := by
            rw [← Bool.not_eq_false']
            exact hnot
          exact List.mem_cons.mp (List.contains_iff_mem.mp hin)
      · exact ih _ t ht

theorem tokensIn_words (hlen : text.length ≤ left) (hplain : ∀ t ∈ tokensIn left text, Plain t) :
    (tokensIn left text).map Token.text = words (dropComments false text) := by
  induction left generalizing text with
  | zero =>
    obtain rfl : text = [] := List.length_eq_zero_iff.mp (by omega)
    rfl
  | succ left ih =>
    cases text with
    | nil => rfl
    | cons c text =>
      rw [length_cons] at hlen
      have hspec := tokensIn_spec (left + 1) (c :: text)
      rw [tokensIn] at hplain hspec ⊢
      by_cases hcomment : c = 35
      · rw [if_pos hcomment] at hplain ⊢
        have hle := (dropWhile_sublist (fun b : UInt8 => decide (b ≠ 10 ∧ b ≠ 13)) (l := text)).length_le
        rw [dropComments, if_pos hcomment, dropComments_true]
        exact ih (by omega) hplain
      rw [if_neg hcomment] at hplain hspec ⊢
      by_cases hspace : isspace c = true
      · rw [if_pos hspace] at hplain ⊢
        rw [dropComments, if_neg hcomment, words_space hspace]
        exact ih (by omega) hplain
      rw [if_neg hspace] at hplain hspec ⊢
      obtain ⟨hne, hin, hends⟩ := hspec _ mem_cons_self
      have hclean := clean_of_inToken hin (hplain _ mem_cons_self)
      have hlen' : ((c :: text).dropWhile inToken).length ≤ left := by
        have hsum := congrArg List.length (takeWhile_dropWhile inToken (c :: text))
        rw [length_append, length_cons] at hsum
        have := List.length_pos_iff.mpr hne
        simp only at this
        omega
      have hrest := ih hlen' fun t ht => hplain t (mem_cons_of_mem _ ht)
      rw [map_cons, hrest]
      conv => rhs; rw [takeWhile_dropWhile inToken (c :: text)]
      rw [dropComments_append hclean, words_append hne hclean (dropComments_head hends)]

end Words

/-! ## Keywords -/

/-- `=LIMIT` or `/LIMIT` after a keyword, or nothing. -/
def SlotsText (l : List UInt8) : Prop :=
  l = [] ∨ ∃ c digits n, l = c :: digits ∧ (c = 47 ∨ c = 61) ∧ IsDecimal digits n ∧ 0 < n ∧
    n < 2 ^ 31

inductive Keyword : List UInt8 → Prop
  | randomize : Keyword (ascii "--randomize")
  | localslots {l : List UInt8} (h : SlotsText l) : Keyword (ascii "--localslots" ++ l)
  | localslots_cpp {l : List UInt8} (h : SlotsText l) : Keyword (ascii "--localslots_cpp" ++ l)

def isKeyword (tok : List UInt8) : Bool :=
  str_startswith (ascii "--randomize") tok || str_startswith (ascii "--localslots") tok

/-- The token is a slip: it has a vertical tab, is a keyword with something after it or a
wrong number, or is a host with a slip or not separated from a comment. -/
def Careless (t : Token) : Prop :=
  ¬ Plain t ∨ isKeyword t.text = true ∧ ¬ Keyword t.text ∨
  isKeyword t.text = false ∧ (HostSlip t.text ∨ t.rest.head? = some 35 ∧ Unseparated t.text)

section Tokens
variable {longBits : Nat} {t : Token} {tok rest w : List UInt8} {host : Hostdef}

/-- A word without blanks is at the start of a token or not at the start of the text. -/
theorem startswith_token (hends : EndsBefore rest) (hw : ∀ b ∈ w, inToken b = true) :
    str_startswith w (tok ++ rest) = str_startswith w tok := by
  unfold str_startswith
  rw [Bool.eq_iff_iff, isPrefixOf_iff_prefix, isPrefixOf_iff_prefix]
  constructor
  · intro ⟨s, hs⟩
    rcases List.append_eq_append_iff.mp hs with ⟨a, htok, _⟩ | ⟨a, hwa, hrest⟩
    · exact ⟨a, htok.symm⟩
    cases a with
    | nil =>
      rw [append_nil] at hwa
      exact hwa ▸ prefix_rfl
    | cons b a =>
      have hin := hw b (by simp [hwa])
      have hout : inToken b = false := by
        rcases hends b (by rw [hrest]; rfl) with rfl | hblank
        · rfl
        unfold inToken
        rw [contains_cons, List.contains_iff_mem.mpr hblank, Bool.or_true]
        rfl
      rw [hin] at hout
      cases hout
  · intro h
    exact h.trans (prefix_append tok rest)

theorem isLocalhost_iff (hends : EndsBefore t.rest) :
    isLocalhost t = true ↔ IsLocalhost t.text := by
  have hw : ∀ b ∈ ascii "localhost", inToken b = true :=
    List.all_eq_true.mp (by decide)
  unfold isLocalhost IsLocalhost
  have hstart : str_startswith (ascii "localhost") (t.text ++ t.rest) = _ :=
    startswith_token hends hw
  simp only [hstart]
  simp only [Bool.and_eq_true, Bool.or_eq_true, beq_iff_eq, str_startswith,
    isPrefixOf_iff_prefix]
  constructor
  · rintro ⟨⟨after, hafter⟩, hnext⟩
    rw [← hafter] at hnext ⊢
    cases after with
    | nil => exact Or.inl (append_nil _)
    | cons c after =>
      right
      rcases hnext with hlen | hnext
      · simp [ascii] at hlen
      obtain rfl : c = 47 := Option.some.inj hnext
      exact ⟨after, rfl⟩
  · rintro (htok | ⟨after, htok⟩)
    · rw [htok]
      exact ⟨prefix_rfl, Or.inl rfl⟩
    · rw [htok]
      exact ⟨prefix_append _ _, Or.inr rfl⟩

def Entry (tok : List UInt8) (host : Hostdef) : Prop := ∃ closed, HostSpec tok host closed

theorem HostSpec.parses (hlong : 32 ≤ longBits) (hends : EndsBefore t.rest) {closed : Prop}
    (h : HostSpec t.text host closed) (hglued : t.rest.head? = some 35 → closed) :
    parseHost longBits t = .ok host := by
  have hlocal := isLocalhost_iff hends
  unfold parseHost
  rcases h with ⟨his, h, _⟩ | ⟨hnot, hat, h⟩ | ⟨hnot, hat, h⟩
  · rw [if_pos (hlocal.mpr his)]
    exact h.parses hlong hends
  · rw [if_neg fun h => hnot (hlocal.mp h), if_pos (List.contains_iff_mem.mpr hat)]
    exact h.parses hlong hends hglued
  · rw [if_neg fun h => hnot (hlocal.mp h), if_neg fun h => hat (List.contains_iff_mem.mp h)]
    exact h.parses hlong hends hglued

theorem Entry.unique {host' : Hostdef} (h : Entry tok host) (h' : Entry tok host') :
    host = host' := by
  obtain ⟨closed, h⟩ := h
  obtain ⟨closed', h'⟩ := h'
  have hends : EndsBefore (Token.rest ⟨tok, []⟩) := by
    intro b hb
    cases hb
  have hhost : parseHost 32 ⟨tok, []⟩ = .ok host := by
    apply HostSpec.parses le_rfl hends h
    intro hcomment
    cases hcomment
  have hhost' : parseHost 32 ⟨tok, []⟩ = .ok host' := by
    apply HostSpec.parses le_rfl hends h'
    intro hcomment
    cases hcomment
  exact Except.ok.inj (hhost.symm.trans hhost')

theorem HostSpec.of_reads (hlong : 32 ≤ longBits) (hends : EndsBefore t.rest)
    (hclean : Clean t.text) (hne : t.text ≠ []) (hslip : ¬ HostSlip t.text)
    (hglued : t.rest.head? = some 35 → ¬ Unseparated t.text)
    (h : parseHost longBits t = .ok host) : Entry t.text host := by
  have hlocal := isLocalhost_iff hends
  unfold parseHost at h
  by_cases his : IsLocalhost t.text
  · rw [if_pos (hlocal.mpr his)] at h
    have hslip' : ¬ LocalSlip t.text := fun hs => hslip (Or.inl ⟨his, hs⟩)
    exact ⟨True, Or.inl ⟨his, LocalSpec.of_reads hlong hends hclean his hslip' h, trivial⟩⟩
  rw [if_neg fun h => his (hlocal.mp h)] at h
  by_cases hat : 64 ∈ t.text
  · rw [if_pos (List.contains_iff_mem.mpr hat)] at h
    have hslip' : ¬ SshSlip t.text := fun hs => hslip (Or.inr (Or.inl ⟨his, hat, hs⟩))
    have hglued' : t.rest.head? = some 35 → (∀ host, ¬ SshSpec t.text host False) ∧
        ∀ user, t.text = user ++ [64] → 64 ∈ user := by
      intro hcomment
      have hsep := hglued hcomment
      unfold Unseparated at hsep
      rw [not_or] at hsep
      refine ⟨?_, ?_⟩
      · intro host hspec
        exact hsep.1 ⟨host, Or.inr (Or.inl ⟨his, hat, hspec⟩)⟩
      · intro user htok
        by_contra hnot
        exact hsep.2 ⟨user, htok, hnot⟩
    obtain ⟨closed, hspec⟩ := SshSpec.of_reads hlong hends hclean hat hslip' hglued' h
    exact ⟨closed, Or.inr (Or.inl ⟨his, hat, hspec⟩)⟩
  · rw [if_neg fun h => hat (List.contains_iff_mem.mp h)] at h
    have hslip' : ¬ TcpSlip t.text := fun hs => hslip (Or.inr (Or.inr ⟨his, hat, hs⟩))
    have hglued' : t.rest.head? = some 35 → ∀ host, ¬ TcpSpec t.text host False := by
      intro hcomment host hspec
      exact hglued hcomment (Or.inl ⟨host, Or.inr (Or.inr ⟨his, hat, hspec⟩)⟩)
    obtain ⟨closed, hspec⟩ := TcpSpec.of_reads hlong hends hclean hne hslip' hglued' h
    exact ⟨closed, Or.inr (Or.inr ⟨his, hat, hspec⟩)⟩

theorem Entry.valid (h : Entry tok host) :
    0 < host.n_slots ∧ (host.mode = some .DCC_MODE_TCP → 0 < host.port ∧ host.port < 2 ^ 16) := by
  have hlimit : ∀ {default n : Int} {l : List UInt8}, 0 < default → LimitText default l n → 0 < n := by
    intro default n l hdefault hl
    cases hl with
    | absent => exact hdefault
    | given hdigits hpos hlt => exact Int.natCast_pos.mpr hpos
  obtain ⟨closed, h⟩ := h
  rcases h with ⟨_, h, _⟩ | ⟨_, _, h⟩ | ⟨_, _, h⟩
  · obtain ⟨l, n, _, hl, rfl⟩ := h
    refine ⟨hlimit (by decide) hl, ?_⟩
    intro hmode
    cases hmode
  · obtain ⟨user, name, l, n, c, command, options, _, _, _, hl, _, _, _, rfl⟩ := h
    refine ⟨hlimit (by decide) hl, ?_⟩
    intro hmode
    cases hmode
  obtain ⟨name, l, n, p, port, l', n', options, _, _, hl, hp, hl', _, _, rfl⟩ := h
  refine ⟨hlimit (hlimit (by decide) hl) hl', ?_⟩
  intro _
  show 0 < port ∧ port < 2 ^ 16
  cases hp with
  | absent => decide
  | given hdigits hpos hlt => exact ⟨Int.natCast_pos.mpr hpos, by omega⟩

theorem dcc_parse_multiplier_slots (hlong : 32 ≤ longBits) (hends : EndsBefore rest)
    {l : List UInt8} (hl : SlotsText l) (slots : Int) :
    ∃ n, dcc_parse_multiplier longBits (l ++ rest) slots = .ok (n, rest) := by
  rcases hl with rfl | ⟨c, digits, n, rfl, hc, hdigits, hpos, hlt⟩
  · refine ⟨slots, dcc_parse_multiplier_absent ?_⟩
    intro b hb
    exact ⟨(hends.facts hb).2.1, (hends.facts hb).2.2.1⟩
  · refine ⟨n, dcc_parse_multiplier_decimal hlong hc hdigits hpos hlt ?_⟩
    intro b hb
    exact (hends.facts hb).1

theorem no_cpp (hends : EndsBefore rest) {l : List UInt8} (hl : SlotsText l) :
    str_startswith (ascii "--localslots_cpp") (ascii "--localslots" ++ (l ++ rest)) = false := by
  have hhead : ∀ b ∈ (l ++ rest).head?, b ≠ 95 := by
    intro b hb
    rcases hl with rfl | ⟨c, digits, n, rfl, rfl | rfl, _⟩
    · rcases hends b hb with rfl | hblank
      · decide
      rintro rfl
      revert hblank
      decide
    · obtain rfl := Option.some.inj hb
      decide
    · obtain rfl := Option.some.inj hb
      decide
  show (ascii "_cpp").isPrefixOf (l ++ rest) = false
  cases htail : l ++ rest with
  | nil => rfl
  | cons b tail =>
    rw [htail] at hhead
    have hne := hhead b rfl
    simp [ascii, List.isPrefixOf, hne.symm]

theorem keyword_of (hlong : 32 ≤ longBits) (hends : EndsBefore rest) (h : Keyword tok)
    (list : HostList) : ∃ list', keyword longBits (tok ++ rest) list = some list' ∧
      list'.hosts = list.hosts ∧
      list'.flag_randomize = (list.flag_randomize || decide (tok = ascii "--randomize")) := by
  cases h with
  | randomize => exact ⟨{ list with flag_randomize := true }, rfl, rfl, by simp⟩
  | localslots hl =>
    rename_i l
    obtain ⟨n, hn⟩ := dcc_parse_multiplier_slots hlong hends hl list.localSlots
    have hne : ascii "--localslots" ++ l ≠ ascii "--randomize" := by
      intro heq
      have hthird : (some 108 : Option UInt8) = some 114 := congrArg (fun s => s[2]?) heq
      exact absurd hthird (by decide)
    refine ⟨{ list with localSlots := n }, ?_, rfl, by simp [hne]⟩
    have hrandom : str_startswith (ascii "--randomize") (ascii "--localslots" ++ (l ++ rest)) =
        false := rfl
    have hslots : str_startswith (ascii "--localslots") (ascii "--localslots" ++ (l ++ rest)) =
        true := rfl
    have hdrop : (ascii "--localslots" ++ (l ++ rest)).drop 12 = l ++ rest := rfl
    unfold keyword
    simp only [append_assoc, hrandom, hslots, no_cpp hends hl, hdrop, hn, if_true,
      Bool.false_eq_true, if_false]
    rfl
  | localslots_cpp hl =>
    rename_i l
    obtain ⟨n, hn⟩ := dcc_parse_multiplier_slots hlong hends hl list.localCppSlots
    have hne : ascii "--localslots_cpp" ++ l ≠ ascii "--randomize" := by
      intro heq
      have hthird : (some 108 : Option UInt8) = some 114 := congrArg (fun s => s[2]?) heq
      exact absurd hthird (by decide)
    refine ⟨{ list with localCppSlots := n }, ?_, rfl, by simp [hne]⟩
    have hrandom : str_startswith (ascii "--randomize") (ascii "--localslots_cpp" ++ (l ++ rest)) =
        false := rfl
    have hcpp : str_startswith (ascii "--localslots_cpp") (ascii "--localslots_cpp" ++ (l ++ rest)) =
        true := rfl
    have hdrop : (ascii "--localslots_cpp" ++ (l ++ rest)).drop 16 = l ++ rest := rfl
    unfold keyword
    simp only [append_assoc, hrandom, hcpp, hdrop, hn, if_true, Bool.false_eq_true, if_false]
    rfl

theorem startswith_trans {v : List UInt8} (hv : w <+: v) (h : str_startswith w tok = false) :
    str_startswith v tok = false := by
  unfold str_startswith at *
  rw [Bool.eq_false_iff] at *
  intro hp
  apply h
  exact isPrefixOf_iff_prefix.mpr (hv.trans <| isPrefixOf_iff_prefix.mp hp)

theorem keyword_none (hends : EndsBefore rest) (h : isKeyword tok = false) (list : HostList) :
    keyword longBits (tok ++ rest) list = none := by
  unfold isKeyword at h
  rw [Bool.or_eq_false_iff] at h
  have hrandom : str_startswith (ascii "--randomize") (tok ++ rest) = false := by
    rw [startswith_token hends (List.all_eq_true.mp (by decide))]
    exact h.1
  have hslots : str_startswith (ascii "--localslots") (tok ++ rest) = false := by
    rw [startswith_token hends (List.all_eq_true.mp (by decide))]
    exact h.2
  have hprefix : ascii "--localslots" <+: ascii "--localslots_cpp" := ⟨ascii "_cpp", rfl⟩
  have hcpp := startswith_trans hprefix hslots
  unfold keyword
  simp only [hrandom, hslots, hcpp, Bool.false_eq_true, if_false]

/-! ## The list -/

def Readable (tok : List UInt8) : Prop :=
  isKeyword tok = true ∨ isKeyword tok = false ∧ ∃ host, Entry tok host

structure Careful (t : Token) : Prop where
  ends : EndsBefore t.rest
  clean : Clean t.text
  nonempty : t.text ≠ []
  careful : ¬ Careless t

theorem Careful.keyword (h : Careful t) (hk : isKeyword t.text = true) : Keyword t.text := by
  by_contra hnot
  exact h.careful (Or.inr (Or.inl ⟨hk, hnot⟩))

theorem Careful.entry (hlong : 32 ≤ longBits) (h : Careful t) (hk : isKeyword t.text = false)
    (hread : parseHost longBits t = .ok host) : Entry t.text host := by
  have hslip : ¬ HostSlip t.text := fun hs => h.careful (Or.inr (Or.inr ⟨hk, Or.inl hs⟩))
  have hglued : t.rest.head? = some 35 → ¬ Unseparated t.text :=
    fun hc hu => h.careful (Or.inr (Or.inr ⟨hk, Or.inr ⟨hc, hu⟩⟩))
  exact HostSpec.of_reads hlong h.ends h.clean h.nonempty hslip hglued hread

theorem careful_of_tokens {text : List UInt8} (h : ∀ t ∈ tokens text, ¬ Careless t) :
    ∀ t ∈ tokens text, Careful t := by
  intro t ht
  obtain ⟨hne, hin, hends⟩ := tokensIn_spec text.length text t ht
  have hplain : Plain t := by
    by_contra hnot
    exact h t ht (Or.inl hnot)
  exact ⟨hends, clean_of_inToken hin hplain, hne, h t ht⟩

theorem parseToken_host (hlong : 32 ≤ longBits) (ht : Careful t) (hk : isKeyword t.text = false)
    (list : HostList) : (∃ list', parseToken longBits list t = .ok list') ↔
      ∃ host, Entry t.text host := by
  unfold parseToken
  rw [keyword_none ht.ends hk]
  constructor
  · intro ⟨list', h⟩
    obtain ⟨host, hread, _⟩ := bind_eq_ok.mp h
    exact ⟨host, ht.entry hlong hk hread⟩
  · intro ⟨host, closed, hspec⟩
    have hglued : t.rest.head? = some 35 → closed := by
      intro hc
      by_contra hopen
      apply ht.careful
      refine Or.inr (Or.inr ⟨hk, Or.inr ⟨hc, Or.inl ⟨host, ?_⟩⟩⟩)
      rw [show closed = False from eq_false hopen] at hspec
      exact hspec
    have hread : parseHost longBits t = .ok host := HostSpec.parses hlong ht.ends hspec hglued
    exact ⟨_, bind_eq_ok.mpr ⟨host, hread, rfl⟩⟩

theorem parseToken_ok (hlong : 32 ≤ longBits) (ht : Careful t) {list list' : HostList}
    (h : parseToken longBits list t = .ok list') :
    (isKeyword t.text = true ∧ list'.hosts = list.hosts ∧
      list'.flag_randomize = (list.flag_randomize || decide (t.text = ascii "--randomize"))) ∨
    (isKeyword t.text = false ∧ list'.flag_randomize = list.flag_randomize ∧
      ∃ host, Entry t.text host ∧ list'.hosts = list.hosts ++ [host]) := by
  cases hk : isKeyword t.text with
  | true =>
    obtain ⟨list₁, hkeyword, hhosts, hflag⟩ := keyword_of hlong ht.ends (ht.keyword hk) list
    unfold parseToken at h
    rw [hkeyword] at h
    obtain rfl := Except.ok.inj h
    exact Or.inl ⟨rfl, hhosts, hflag⟩
  | false =>
    unfold parseToken at h
    rw [keyword_none ht.ends hk] at h
    obtain ⟨host, hread, h⟩ := bind_eq_ok.mp h
    obtain rfl := Except.ok.inj h
    exact Or.inr ⟨rfl, rfl, host, ht.entry hlong hk hread, rfl⟩

theorem parse_tokens_ok (hlong : 32 ≤ longBits) {ts : List Token} (hts : ∀ t ∈ ts, Careful t)
    {list list' : HostList} (h : ts.foldlM (parseToken longBits) list = .ok list') :
    list'.flag_randomize =
      (list.flag_randomize || decide (ascii "--randomize" ∈ ts.map Token.text)) ∧
    ∃ hosts, List.Forall₂ Entry ((ts.map Token.text).filter fun w => !isKeyword w) hosts ∧
      list'.hosts = list.hosts ++ hosts := by
  induction ts generalizing list with
  | nil =>
    obtain rfl := Except.ok.inj h
    exact ⟨by simp, [], .nil, (append_nil _).symm⟩
  | cons t ts ih =>
    obtain ⟨list₁, hstep, h⟩ := bind_eq_ok.mp h
    obtain ⟨hflag, hosts, hentries, hhosts⟩ := ih (fun t ht => hts t (mem_cons_of_mem _ ht)) h
    rcases parseToken_ok hlong (hts t mem_cons_self) hstep with
      ⟨hk, hhosts₁, hflag₁⟩ | ⟨hk, hflag₁, host, hentry, hhosts₁⟩
    · refine ⟨?_, hosts, ?_, ?_⟩
      · rw [hflag, hflag₁]
        simp [Bool.or_assoc, eq_comm]
      · simpa [hk] using hentries
      · rw [hhosts, hhosts₁]
    have hne : ascii "--randomize" ≠ t.text := by
      intro heq
      rw [← heq] at hk
      exact absurd hk (by decide)
    refine ⟨?_, host :: hosts, ?_, ?_⟩
    · rw [hflag, hflag₁]
      simp [hne]
    · simpa [hk] using List.Forall₂.cons hentry hentries
    · rw [hhosts, hhosts₁, append_assoc]
      rfl

theorem parse_tokens_iff (hlong : 32 ≤ longBits) {ts : List Token} (hts : ∀ t ∈ ts, Careful t)
    (list : HostList) : (∃ list', ts.foldlM (parseToken longBits) list = .ok list') ↔
      ∀ w ∈ ts.map Token.text, Readable w := by
  induction ts generalizing list with
  | nil => exact ⟨fun _ => by simp, fun _ => ⟨list, rfl⟩⟩
  | cons t ts ih =>
    have ht := hts t mem_cons_self
    have ih := ih fun t ht => hts t (mem_cons_of_mem _ ht)
    have hstep : (∃ list', parseToken longBits list t = .ok list') ↔ Readable t.text := by
      cases hk : isKeyword t.text with
      | true =>
        obtain ⟨list₁, hkeyword, _⟩ := keyword_of hlong ht.ends (ht.keyword hk) list
        unfold parseToken
        rw [hkeyword]
        exact ⟨fun _ => Or.inl hk, fun _ => ⟨list₁, rfl⟩⟩
      | false =>
        rw [parseToken_host hlong ht hk]
        unfold Readable
        simp [hk]
    rw [map_cons, forall_mem_cons, ← hstep]
    constructor
    · intro ⟨list', h⟩
      obtain ⟨list₁, hone, h⟩ := bind_eq_ok.mp h
      exact ⟨⟨list₁, hone⟩, (ih list₁).mp ⟨list', h⟩⟩
    · intro ⟨⟨list₁, hone⟩, hall⟩
      obtain ⟨list', h⟩ := (ih list₁).mpr hall
      refine ⟨list', ?_⟩
      exact bind_eq_ok.mpr ⟨list₁, hone, h⟩

theorem randomize_perm {qsort : List (Hostdef × Int) → List (Hostdef × Int)}
    (hqsort : ∀ l, SortContract.Sorted (fun a b => decide (a.2 < b.2)) l (qsort l))
    (rand : Nat → Int) (hosts : List Hostdef) :
    (dcc_randomize_host_list rand qsort hosts).Perm hosts := by
  refine ((hqsort _).perm.map Prod.fst).trans ?_
  rw [map_map]
  have hfst : (Prod.fst ∘ fun p : Hostdef × Nat => (p.1, rand p.2)) = Prod.fst := rfl
  rw [hfst, zipIdx_map_fst]

end Tokens

theorem Keyword.isKeyword {tok : List UInt8} (h : Keyword tok) : isKeyword tok = true := by
  cases h with
  | randomize => rfl
  | localslots => rfl
  | localslots_cpp => rfl

theorem filter_ne_nil {ws : List (List UInt8)} {hosts : List Hostdef}
    (h : List.Forall₂ Entry (ws.filter fun w => !isKeyword w) hosts) :
    hosts ≠ [] ↔ ∃ w ∈ ws, isKeyword w = false := by
  have hlen := h.length_eq
  constructor
  · intro hne
    obtain ⟨w, hw⟩ := exists_mem_of_length_pos (hlen ▸ List.length_pos_iff.mpr hne)
    obtain ⟨hmem, hk⟩ := List.mem_filter.mp hw
    exact ⟨w, hmem, by simpa using hk⟩
  · rintro ⟨w, hmem, hk⟩ rfl
    have hw : w ∈ ws.filter fun w => !isKeyword w := List.mem_filter.mpr ⟨hmem, by simp [hk]⟩
    rw [List.length_eq_zero_iff.mp hlen] at hw
    cases hw

theorem dcc_parse_hosts_ok {longBits : Nat} {rand : Nat → Int}
    {qsort : List (Hostdef × Int) → List (Hostdef × Int)} {localSlots localCppSlots : Int}
    {text : List UInt8} {list : HostList} :
    dcc_parse_hosts longBits rand qsort localSlots localCppSlots text = .ok list ↔
      ∃ parsed, (tokens text).foldlM (parseToken longBits)
          ⟨localSlots, localCppSlots, false, []⟩ = .ok parsed ∧ parsed.hosts ≠ [] ∧
        list = if parsed.flag_randomize then
          { parsed with hosts := dcc_randomize_host_list rand qsort parsed.hosts } else parsed := by
  unfold dcc_parse_hosts
  rw [bind_eq_ok]
  constructor
  · intro ⟨parsed, hfold, h⟩
    refine ⟨parsed, hfold, ?_⟩
    by_cases hnil : parsed.hosts = []
    · rw [if_pos hnil] at h
      cases h
    rw [if_neg hnil] at h
    refine ⟨hnil, ?_⟩
    split at h
    · rename_i hflag
      rw [if_pos hflag]
      exact (Except.ok.inj h).symm
    · rename_i hflag
      rw [if_neg hflag]
      exact (Except.ok.inj h).symm
  · intro ⟨parsed, hfold, hne, hlist⟩
    refine ⟨parsed, hfold, ?_⟩
    rw [if_neg hne, hlist]
    split
    · rfl
    · rfl

/-- A text without slips is accepted exactly if all its words can be read and one of them is
a host; the list has their hosts, in order unless it is randomized. -/
theorem dcc_parse_hosts_iff {longBits : Nat} (hlong : 32 ≤ longBits) (rand : Nat → Int)
    {qsort : List (Hostdef × Int) → List (Hostdef × Int)}
    (hqsort : ∀ l, SortContract.Sorted (fun a b => decide (a.2 < b.2)) l (qsort l))
    (localSlots localCppSlots : Int) {text : List UInt8}
    (hcareful : ∀ t ∈ tokens text, ¬ Careless t) : let ws := words (dropComments false text)
    let result := dcc_parse_hosts longBits rand qsort localSlots localCppSlots text
    ((∃ list, result = .ok list) ↔
      (∀ w ∈ ws, Keyword w ∨ isKeyword w = false ∧ ∃ host, Entry w host) ∧
      ∃ w ∈ ws, isKeyword w = false) ∧
    (∀ list, result = .ok list →
      (∃ hosts, List.Forall₂ Entry (ws.filter fun w => !isKeyword w) hosts ∧
        if ascii "--randomize" ∈ ws then list.hosts.Perm hosts else list.hosts = hosts) ∧
      ∀ host ∈ list.hosts, 0 < host.n_slots ∧
        (host.mode = some .DCC_MODE_TCP → 0 < host.port ∧ host.port < 2 ^ 16)) ∧
    ∀ w host host', Entry w host → Entry w host' → host = host' := by
  intro ws result
  have hts := careful_of_tokens hcareful
  have hwords : (tokens text).map Token.text = ws := by
    apply tokensIn_words le_rfl
    intro t ht
    by_contra hnot
    exact hcareful t ht (Or.inl hnot)
  have hparsed : ∀ {parsed}, (tokens text).foldlM (parseToken longBits)
      ⟨localSlots, localCppSlots, false, []⟩ = .ok parsed →
      parsed.flag_randomize = decide (ascii "--randomize" ∈ ws) ∧
      List.Forall₂ Entry (ws.filter fun w => !isKeyword w) parsed.hosts := by
    intro parsed hfold
    obtain ⟨hflag, hosts, hentries, hhosts⟩ := parse_tokens_ok hlong hts hfold
    rw [hwords] at hflag hentries
    rw [hflag, hhosts, Bool.false_or]
    exact ⟨rfl, hentries⟩
  refine ⟨?_, ?_, ?_⟩
  · have hreadable : (∀ w ∈ ws, Readable w) ↔
        ∀ w ∈ ws, Keyword w ∨ isKeyword w = false ∧ ∃ host, Entry w host := by
      apply forall₂_congr
      intro w hw
      rw [← hwords] at hw
      obtain ⟨t, ht, rfl⟩ := List.mem_map.mp hw
      constructor
      · rintro (hk | hk)
        · exact Or.inl ((hts t ht).keyword hk)
        · exact Or.inr hk
      · rintro (hk | hk)
        · exact Or.inl hk.isKeyword
        · exact Or.inr hk
    rw [← hreadable, ← hwords, ← parse_tokens_iff hlong hts, hwords]
    constructor
    · intro ⟨list, h⟩
      obtain ⟨parsed, hfold, hne, _⟩ := dcc_parse_hosts_ok.mp h
      exact ⟨⟨parsed, hfold⟩, (filter_ne_nil (hparsed hfold).2).mp hne⟩
    · intro ⟨⟨parsed, hfold⟩, hhost⟩
      have hne := (filter_ne_nil (hparsed hfold).2).mpr hhost
      exact ⟨_, dcc_parse_hosts_ok.mpr ⟨parsed, hfold, hne, rfl⟩⟩
  · intro list h
    obtain ⟨parsed, hfold, _, hlist⟩ := dcc_parse_hosts_ok.mp h
    obtain ⟨hflag, hentries⟩ := hparsed hfold
    have hperm : list.hosts.Perm parsed.hosts := by
      rw [hlist]
      split
      · exact randomize_perm hqsort rand parsed.hosts
      · exact List.Perm.refl _
    refine ⟨⟨parsed.hosts, hentries, ?_⟩, ?_⟩
    · by_cases hrandom : ascii "--randomize" ∈ ws
      · rw [if_pos hrandom]
        exact hperm
      · rw [if_neg hrandom, hlist, hflag, decide_eq_false hrandom]
        rfl
    · intro host hhost
      obtain ⟨i, hi, hget⟩ := getElem_of_mem (hperm.mem_iff.mp hhost)
      have hentry := hentries.get (i := i) (by rw [hentries.length_eq]; exact hi) hi
      rw [← hget]
      exact Entry.valid hentry
  · intro w host host' h h'
    exact h.unique h'

section Examples

def byRand (hosts : List (Hostdef × Int)) : List (Hostdef × Int) :=
  hosts.mergeSort fun a b => !decide (b.2 < a.2)

theorem byRand_sorted (hosts : List (Hostdef × Int)) :
    SortContract.Sorted (fun a b => decide (a.2 < b.2)) hosts (byRand hosts) := by
  have hkey : SortContract.ComparesKey (fun a b : Hostdef × Int => decide (a.2 < b.2)) Prod.snd :=
    fun _ _ => decide_eq_true_iff
  exact SortContract.sorted_mergeSort hkey hosts

theorem nil_of_head {part : List UInt8} {c : UInt8} (hc : ∀ b ∈ part.head?, b = c)
    (hne : ∀ b ∈ part, b ≠ c) : part = [] := by
  cases part with
  | nil => rfl
  | cons b part => exact absurd (hc b rfl) (hne b mem_cons_self)

theorem IsName.no_slip {tok : List UInt8} (h : IsName tok) : ¬ TcpSlip tok := by
  have hnot : ∀ b ∈ tok, b ≠ 47 ∧ b ≠ 58 ∧ b ≠ 44 := by
    intro b hb
    have hout := h.2 b hb
    refine ⟨?_, ?_, ?_⟩ <;> rintro rfl <;> exact absurd hout (by decide)
  rintro ⟨name, l, n, _, hl, ⟨after, rfl, _⟩ | ⟨p, port, hp, ⟨after, rfl, _⟩ | hleft⟩⟩
  · exact (hnot 58 (by simp)).2.1 rfl
  · exact (hnot 47 (by simp)).1 rfl
  · obtain ⟨l', n', options, left, rfl, hl', _, _, hstop⟩ := hleft
    have hlnil : l = [] := nil_of_head (fun b hb => hl.head hb) fun b hb => (hnot b (by simp [hb])).1
    have hl'nil : l' = [] :=
      nil_of_head (fun b hb => hl'.head hb) fun b hb => (hnot b (by simp [hb])).1
    have hoptions : optionsText options = [] :=
      nil_of_head (fun b hb => optionsText_head hb) fun b hb => (hnot b (by simp [hb])).2.2
    rcases (hstop (optionsText_eq_nil hoptions)).2 with ⟨hne, _⟩ | ⟨_, _, hne, _⟩
    · exact hne hl'nil
    · exact hne hlnil

theorem isName_red : IsName (ascii "red") := by
  refine ⟨by decide, ?_⟩
  intro b hb
  have hall : (ascii "red").all (fun b => !nameEnds.contains b) = true := by decide
  simpa using List.all_eq_true.mp hall b hb

def redText : List UInt8 := ascii "red  # blue"

theorem hosts_red : (∀ w ∈ words (dropComments false redText),
      Keyword w ∨ isKeyword w = false ∧ ∃ host, Entry w host) ∧
    ∃ w ∈ words (dropComments false redText), isKeyword w = false := by
  have hcareful : ∀ t ∈ tokens redText, ¬ Careless t := by
    have htokens : tokens redText = [⟨ascii "red", ascii "  # blue"⟩] := by decide
    have hlocal : ¬ IsLocalhost (ascii "red") := by
      rintro (h | ⟨after, h⟩)
      · exact absurd h (by decide)
      · cases h
    intro t ht
    obtain rfl := List.mem_singleton.mp ht
    rintro (hplain | ⟨hk, _⟩ | ⟨_, hslip | ⟨hcomment, _⟩⟩)
    · exact hplain (by decide : 11 ∉ ascii "red")
    · cases hk
    · rcases hslip with ⟨his, _⟩ | ⟨_, hat, _⟩ | ⟨_, _, hslip⟩
      · exact hlocal his
      · exact absurd hat (by decide : 64 ∉ ascii "red")
      · exact isName_red.no_slip hslip
    · cases hcomment
  have hlong : 32 ≤ 64 := by decide
  exact (dcc_parse_hosts_iff hlong (fun _ => 0) byRand_sorted 2 8 hcareful).1.mp ⟨_, rfl⟩

theorem cpp_without_lzo_rejected : IsName (ascii "red") ∧
    dcc_parse_hosts 64 (fun _ => 0) byRand 2 8 (ascii "red" ++ optionsText [.cpp]) =
      .error .EXIT_BAD_HOSTSPEC ∧
    ∃ list, dcc_parse_hosts 64 (fun _ => 0) byRand 2 8 (ascii "red" ++ optionsText [.down]) =
      .ok list :=
  ⟨isName_red, rfl, _, rfl⟩

end Examples
end Toolwhip.Distcc
