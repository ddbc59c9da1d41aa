import Toolwhip.Distcc.Hosts

/-! # The grammar of host specifications

What a host specification is, part by part, and the host that it stands for. A token of
that form is read as that host whatever follows it, except that a name, a command or a
port has to be separated from a comment. -/

namespace Toolwhip.Distcc
open Lib.CNumber List
set_option autoImplicit false

def IsDecimal (digits : List UInt8) (n : Nat) : Prop :=
  digits ≠ [] ∧ (∀ b ∈ digits, isDigit 10 b = true) ∧ n = number 10 digits

/-- `[/LIMIT]`, and the slots of a host that has the given ones without it. -/
inductive LimitText (default : Int) : List UInt8 → Int → Prop
  | absent : LimitText default [] default
  | given {digits : List UInt8} {n : Nat} (hdigits : IsDecimal digits n) (hpos : 0 < n)
      (hlt : n < 2 ^ 31) : LimitText default (47 :: digits) n

/-- `[:PORT]` -/
inductive PortText : List UInt8 → Int → Prop
  | absent : PortText [] DISTCC_DEFAULT_PORT
  | given {digits : List UInt8} {n : Nat} (hdigits : IsDecimal digits n) (hpos : 0 < n)
      (hlt : n < 2 ^ 16) : PortText (58 :: digits) n

inductive HostOption where
  | lzo
  | down
  | cpp
  deriving DecidableEq, Repr

def HostOption.text : HostOption → List UInt8
  | lzo => ascii "lzo"
  | down => ascii "down"
  | cpp => ascii "cpp"

def optionsText (options : List HostOption) : List UInt8 := options.flatMap fun o => 44 :: o.text

def Compatible (options : List HostOption) : Prop := .cpp ∈ options → .lzo ∈ options

theorem Compatible.none : Compatible [] := by simp [Compatible]

def withOptions (options : List HostOption) (host : Hostdef) : Hostdef :=
  { host with
    is_up := host.is_up && !options.contains .down
    compr := if options.contains .lzo then .DCC_COMPRESS_LZO1X else .DCC_COMPRESS_NONE
    cpp_where := some (if options.contains .cpp then .DCC_CPP_ON_SERVER else .DCC_CPP_ON_CLIENT)
    protover :=
      if options.contains .cpp then DCC_VER_3
      else if options.contains .lzo then DCC_VER_2 else DCC_VER_1 }

def IsName (name : List UInt8) : Prop := name ≠ [] ∧ ∀ b ∈ name, nameEnds.contains b = false

/-- `[:COMMAND]` -/
inductive CommandText : List UInt8 → Option (List UInt8) → Prop
  | absent : CommandText [] none
  | given {command : List UInt8} (h : ∀ b ∈ command, (blanks ++ ascii ",").contains b = false) :
      CommandText (58 :: command) (if command = [] then none else some command)

def IsLocalhost (tok : List UInt8) : Prop :=
  tok = ascii "localhost" ∨ ∃ after, tok = ascii "localhost" ++ 47 :: after

/-- `localhost[/LIMIT]` -/
def LocalSpec (tok : List UInt8) (host : Hostdef) : Prop :=
  ∃ l n, tok = ascii "localhost" ++ l ∧ LimitText 2 l n ∧
    host = { newHost tok with
      mode := some .DCC_MODE_LOCAL, hostname := some (ascii "localhost"), n_slots := n }

/-- `[USER]@HOSTID[/LIMIT][:COMMAND][OPTIONS]`; `closed` where it ends with a limit or
an option. -/
def SshSpec (tok : List UInt8) (host : Hostdef) (closed : Prop) : Prop :=
  ∃ user name l n c command options,
    tok = user ++ 64 :: (name ++ (l ++ (c ++ optionsText options))) ∧
    (∀ b ∈ user, b ≠ 64) ∧ IsName name ∧ LimitText 4 l n ∧ CommandText c command ∧
    Compatible options ∧ (closed ↔ options ≠ [] ∨ c = [] ∧ l ≠ []) ∧
    host = withOptions options { newHost tok with
      mode := some .DCC_MODE_SSH, user := if user = [] then none else some user
      hostname := some name, n_slots := n, ssh_command := command }

/-- `HOSTID[/LIMIT][:PORT][/LIMIT][OPTIONS]`, where the last limit counts. -/
def TcpSpec (tok : List UInt8) (host : Hostdef) (closed : Prop) : Prop :=
  ∃ name l n p port l' n' options,
    tok = name ++ (l ++ (p ++ (l' ++ optionsText options))) ∧
    IsName name ∧ LimitText 4 l n ∧ PortText p port ∧ LimitText n l' n' ∧
    Compatible options ∧ (closed ↔ options ≠ [] ∨ l' ≠ [] ∨ p = [] ∧ l ≠ []) ∧
    host = withOptions options { newHost tok with
      mode := some .DCC_MODE_TCP, hostname := some name, n_slots := n', port := port }

def HostSpec (tok : List UInt8) (host : Hostdef) (closed : Prop) : Prop :=
  IsLocalhost tok ∧ LocalSpec tok host ∧ closed ∨
  ¬ IsLocalhost tok ∧ 64 ∈ tok ∧ SshSpec tok host closed ∨
  ¬ IsLocalhost tok ∧ 64 ∉ tok ∧ TcpSpec tok host closed

section Parts
variable {longBits : Nat} {src digits u : List UInt8} {n : Nat} {slots : Int}
variable {options : List HostOption} {command : Option (List UInt8)} {l : List UInt8} {p : List UInt8}
  {c : List UInt8} {default : Int} {port : Int}

theorem dcc_dup_part_append {part sep : List UInt8} (hpart : ∀ b ∈ part, sep.contains b = false)
    (hu : ∀ b ∈ u.head?, sep.contains b = true) :
    dcc_dup_part (part ++ u) sep = (if part = [] then none else some part, u) := by
  have hpart' : ∀ b ∈ part, (!sep.contains b) = true := by
    intro b hb
    rw [hpart b hb]
    rfl
  have hu' : ∀ b ∈ u.head?, (!sep.contains b) = false := by
    intro b hb
    rw [hu b hb]
    rfl
  unfold dcc_dup_part
  simp only [takeWhile_append_stop hpart' hu', dropWhile_append_stop hpart' hu']

theorem strtol_decimal (hlong : 32 ≤ longBits) (hdigits : IsDecimal digits n) (hn : n < 2 ^ 31)
    (hu : ∀ b ∈ u.head?, isDigit 10 b = false) : strtol longBits 10 (digits ++ u) = ((n : Int), u) := by
  obtain ⟨hne, hall, rfl⟩ := hdigits
  apply strtol_digits (by decide) hne hall hu
  calc number 10 digits < 2 ^ 31 := hn
    _ ≤ 2 ^ (longBits - 1) := Nat.pow_le_pow_right (by decide) (by omega)

theorem toInt_ofNat (hn : n < 2 ^ 31) : (BitVec.ofInt 32 (n : Int)).toInt = n := by
  rw [BitVec.toInt_ofInt]
  apply Int.bmod_eq_of_le
  · omega
  · omega

theorem atoi_decimal (hlong : 32 ≤ longBits) (hdigits : IsDecimal digits n) (hn : n < 2 ^ 31)
    (hu : ∀ b ∈ u.head?, isDigit 10 b = false) : atoi longBits (digits ++ u) = n := by
  unfold atoi
  rw [strtol_decimal hlong hdigits hn hu]
  exact toInt_ofNat hn

theorem dcc_parse_multiplier_decimal (hlong : 32 ≤ longBits) {c : UInt8} (hc : c = 47 ∨ c = 61)
    (hdigits : IsDecimal digits n) (hpos : 0 < n) (hn : n < 2 ^ 31)
    (hu : ∀ b ∈ u.head?, isDigit 10 b = false) :
    dcc_parse_multiplier longBits (c :: (digits ++ u)) slots = .ok ((n : Int), u) := by
  have hval := atoi_decimal hlong hdigits hn hu
  have hne : (n : Int) ≠ 0 := by omega
  unfold dcc_parse_multiplier
  simp only [if_pos hc, hval, if_neg hne, dropWhile_append_stop hdigits.2.1 hu]

theorem dcc_parse_multiplier_absent (h : ∀ b ∈ src.head?, b ≠ 47 ∧ b ≠ 61) :
    dcc_parse_multiplier longBits src slots = .ok (slots, src) := by
  cases src with
  | nil => rfl
  | cons c rest =>
    obtain ⟨hslash, heq⟩ := h c rfl
    have hc : ¬ (c = 47 ∨ c = 61) := by simp [hslash, heq]
    unfold dcc_parse_multiplier
    simp only [if_neg hc]

theorem dcc_parse_multiplier_text (hlong : 32 ≤ longBits)
    (hl : LimitText default l slots) (hslash : l = [] → ∀ b ∈ u.head?, b ≠ 47)
    (hu : ∀ b ∈ u.head?, isDigit 10 b = false ∧ b ≠ 61) :
    dcc_parse_multiplier longBits (l ++ u) default = .ok (slots, u) := by
  cases hl with
  | absent =>
    apply dcc_parse_multiplier_absent
    intro b hb
    exact ⟨hslash rfl b hb, (hu b hb).2⟩
  | given hdigits hpos hlt =>
    apply dcc_parse_multiplier_decimal hlong (Or.inl rfl) hdigits hpos hlt
    intro b hb
    exact (hu b hb).1

theorem parsePort_text (hlong : 32 ≤ longBits)
    (hp : PortText p port) (hcolon : p = [] → ∀ b ∈ u.head?, b ≠ 58)
    (hu : p ≠ [] → ∀ b ∈ u.head?, isDigit 10 b = false ∧ (isspace b = true ∨ b = 47 ∨ b = 44)) :
    parsePort longBits (p ++ u) = .ok (port, u) := by
  cases hp with
  | absent =>
    unfold parsePort
    split
    · rename_i heq
      rw [nil_append] at heq
      rw [heq] at hcolon
      exact absurd rfl (hcolon rfl 58 rfl)
    · rfl
  | given hdigits hpos hlt =>
    rename_i digits n
    have hu := hu (cons_ne_nil _ _)
    have hn : n < 2 ^ 31 := by omega
    have hread := strtol_decimal hlong hdigits hn fun b hb => (hu b hb).1
    simp only [cons_append, parsePort, hread]
    cases u with
    | nil => simp only [toInt_ofNat hn]
    | cons c rest =>
      have hc := (hu c rfl).2
      have hends : ¬ ((!isspace c) = true ∧ c ≠ 47 ∧ c ≠ 44) := by
        rcases hc with hc | hc | hc <;> simp [hc]
      simp only [if_neg hends, toInt_ofNat hn]

theorem parseCommand_text (hc : CommandText c command) (hcolon : c = [] → ∀ b ∈ u.head?, b ≠ 58)
    (hu : c ≠ [] → ∀ b ∈ u.head?, (blanks ++ ascii ",").contains b = true) :
    parseCommand (c ++ u) = (command, u) := by
  cases hc with
  | absent =>
    unfold parseCommand
    split
    · rename_i heq
      rw [nil_append] at heq
      rw [heq] at hcolon
      exact absurd rfl (hcolon rfl 58 rfl)
    · rfl
  | given h => exact dcc_dup_part_append h (hu (cons_ne_nil _ _))

def HostOption.set (host : Hostdef) : HostOption → Hostdef
  | lzo => { host with compr := .DCC_COMPRESS_LZO1X }
  | down => { host with is_up := false }
  | cpp => { host with cpp_where := some .DCC_CPP_ON_SERVER }

theorem readOptions_cons (host : Hostdef) (o : HostOption) (p : List UInt8) :
    readOptions host (44 :: (o.text ++ p)) = readOptions (o.set host) p := by
  cases o with
  | lzo =>
    show readOptions host (44 :: 108 :: 122 :: 111 :: p) = _
    rfl
  | down =>
    show readOptions host (44 :: 100 :: 111 :: 119 :: 110 :: p) = _
    rfl
  | cpp =>
    show readOptions host (44 :: 99 :: 112 :: 112 :: p) = _
    rfl

theorem readOptions_nil (host : Hostdef) (hu : ∀ b ∈ u.head?, b ≠ 44) :
    readOptions host u = .ok (host, u) := by
  cases u with
  | nil => rw [readOptions] <;> simp
  | cons c rest =>
    rw [readOptions] <;> intros <;> simp_all

theorem readOptions_text (hu : ∀ b ∈ u.head?, b ≠ 44) (options : List HostOption) (host : Hostdef) :
    readOptions host (optionsText options ++ u) = .ok (options.foldl HostOption.set host, u) := by
  induction options generalizing host with
  | nil => exact readOptions_nil host hu
  | cons o options ih =>
    have htext : optionsText (o :: options) ++ u = 44 :: (o.text ++ (optionsText options ++ u)) := by
      simp [optionsText]
    rw [htext, readOptions_cons, ih]
    rfl

theorem foldl_set (options : List HostOption) (host : Hostdef) :
    options.foldl HostOption.set host = { host with
      is_up := host.is_up && !options.contains .down
      compr := if options.contains .lzo then .DCC_COMPRESS_LZO1X else host.compr
      cpp_where := if options.contains .cpp then some .DCC_CPP_ON_SERVER else host.cpp_where } := by
  induction options generalizing host with
  | nil => simp
  | cons o options ih =>
    rw [foldl_cons, ih]
    cases o <;> simp [HostOption.set]

theorem dcc_parse_options_text (hu : ∀ b ∈ u.head?, b ≠ 44)
    (hoptions : Compatible options) {host : Hostdef} (hup : host.is_up = true) :
    dcc_parse_options (optionsText options ++ u) host = .ok (withOptions options host) := by
  unfold dcc_parse_options withOptions
  simp only [readOptions_text hu, foldl_set, bind, Except.bind, hup, Bool.true_and]
  by_cases hcpp : HostOption.cpp ∈ options
  · have hlzo := hoptions hcpp
    simp [hcpp, hlzo, dcc_get_protover_from_features]
  · by_cases hlzo : HostOption.lzo ∈ options <;>
      simp [hcpp, hlzo, dcc_get_protover_from_features]

theorem dcc_parse_options_incompatible (hu : ∀ b ∈ u.head?, b ≠ 44)
    (hoptions : ¬ Compatible options) (host : Hostdef) :
    dcc_parse_options (optionsText options ++ u) host = .error .EXIT_BAD_HOSTSPEC := by
  obtain ⟨hcpp, hlzo⟩ := Classical.not_imp.mp hoptions
  unfold dcc_parse_options
  simp only [readOptions_text hu, foldl_set, bind, Except.bind]
  simp [hcpp, hlzo, dcc_get_protover_from_features]

/-! ## What follows a part -/

variable {b : UInt8}

theorem mem_head_append {x y : List UInt8} (h : b ∈ (x ++ y).head?) :
    b ∈ x.head? ∨ x = [] ∧ b ∈ y.head? := by
  cases x with
  | nil => exact Or.inr ⟨rfl, h⟩
  | cons c x => exact Or.inl h

theorem LimitText.head (h : LimitText default l slots) (hb : b ∈ l.head?) : b = 47 := by
  cases h with
  | absent => cases hb
  | given => exact (Option.some.inj hb).symm

theorem PortText.head (h : PortText p port) (hb : b ∈ p.head?) : b = 58 := by
  cases h with
  | absent => cases hb
  | given => exact (Option.some.inj hb).symm

theorem CommandText.head (h : CommandText c command) (hb : b ∈ c.head?) : b = 58 := by
  cases h with
  | absent => cases hb
  | given => exact (Option.some.inj hb).symm

theorem optionsText_head (hb : b ∈ (optionsText options).head?) : b = 44 := by
  cases options with
  | nil => cases hb
  | cons o options => exact (Option.some.inj hb).symm

theorem optionsText_eq_nil (h : optionsText options = []) : options = [] := by
  cases options with
  | nil => rfl
  | cons o options => cases h

def EndsBefore (rest : List UInt8) : Prop := ∀ b ∈ rest.head?, b = 35 ∨ b ∈ blanks

theorem blank_facts (h : b ∈ blanks) : isDigit 10 b = false ∧ isspace b = true ∧
    nameEnds.contains b = true ∧ (blanks ++ ascii ",").contains b = true ∧
    b ≠ 47 ∧ b ≠ 61 ∧ b ≠ 58 ∧ b ≠ 44 := by
  unfold blanks at h
  simp only [mem_cons, not_mem_nil, or_false] at h
  rcases h with rfl | rfl | rfl | rfl | rfl <;> decide

theorem EndsBefore.facts {rest : List UInt8} (h : EndsBefore rest)
    (hb : b ∈ rest.head?) : isDigit 10 b = false ∧ b ≠ 47 ∧ b ≠ 61 ∧ b ≠ 58 ∧ b ≠ 44 := by
  rcases h b hb with rfl | hblank
  · decide
  obtain ⟨hdigit, _, _, _, h47, h61, h58, h44⟩ := blank_facts hblank
  exact ⟨hdigit, h47, h61, h58, h44⟩

end Parts

section Tokens
variable {longBits : Nat} {tok rest : List UInt8} {host : Hostdef} {closed : Prop}

theorem blank_of_open (hends : EndsBefore rest) (hglued : rest.head? = some 35 → closed)
    (hopen : ¬ closed) {b : UInt8} (hb : b ∈ rest.head?) : b ∈ blanks := by
  rcases hends b hb with rfl | hblank
  · exact absurd (hglued hb) hopen
  · exact hblank

theorem TcpSpec.normal (h : TcpSpec tok host closed) : ∃ name l n p port l' n' options,
      tok = name ++ (l ++ (p ++ (l' ++ optionsText options))) ∧
      IsName name ∧ LimitText 4 l n ∧ PortText p port ∧ LimitText n l' n' ∧
      Compatible options ∧ (closed ↔ options ≠ [] ∨ l' ≠ [] ∨ p = [] ∧ l ≠ []) ∧
      host = withOptions options { newHost tok with
        mode := some .DCC_MODE_TCP, hostname := some name, n_slots := n', port := port } ∧
      (l = [] → p = [] → l' = []) := by
  obtain ⟨name, l, n, p, port, l', n', options, htok, hname, hl, hp, hl', hcompat, hclosed, hhost⟩ := h
  by_cases hfirst : l = [] ∧ p = []
  · obtain ⟨rfl, rfl⟩ := hfirst
    cases hl
    refine ⟨name, l', n', [], port, [], n', options, htok, hname, hl', hp, .absent, hcompat, ?_,
      hhost, fun _ _ => rfl⟩
    rw [hclosed]
    simp
  · refine ⟨name, l, n, p, port, l', n', options, htok, hname, hl, hp, hl', hcompat, hclosed,
      hhost, ?_⟩
    intro hlnil hpnil
    exact absurd ⟨hlnil, hpnil⟩ hfirst

theorem TcpSpec.parses (hlong : 32 ≤ longBits) (hends : EndsBefore rest)
    (h : TcpSpec tok host closed) (hglued : rest.head? = some 35 → closed) :
    dcc_parse_tcp_host longBits (newHost tok) (tok ++ rest) = .ok host := by
  obtain ⟨name, l, n, p, port, l', n', options, htok, hname, hl, hp, hl', hcompat, hclosed, rfl,
    hnormal⟩ := h.normal
  have hu3 : ∀ b ∈ (optionsText options ++ rest).head?,
      b = 44 ∨ options = [] ∧ b ∈ rest.head? := by
    intro b hb
    rcases mem_head_append hb with hb | ⟨hnil, hb⟩
    · exact Or.inl (optionsText_head hb)
    · exact Or.inr ⟨optionsText_eq_nil hnil, hb⟩
  have hu2 : ∀ b ∈ (l' ++ (optionsText options ++ rest)).head?,
      b = 47 ∧ l' ≠ [] ∨ l' = [] ∧ (b = 44 ∨ options = [] ∧ b ∈ rest.head?) := by
    intro b hb
    rcases mem_head_append hb with hb | ⟨hnil, hb⟩
    · refine Or.inl ⟨hl'.head hb, ?_⟩
      rintro rfl
      cases hb
    · exact Or.inr ⟨hnil, hu3 b hb⟩
  have hu1 : ∀ b ∈ (p ++ (l' ++ (optionsText options ++ rest))).head?,
      b = 58 ∨ p = [] ∧ (b = 47 ∧ l' ≠ [] ∨ l' = [] ∧ (b = 44 ∨ options = [] ∧ b ∈ rest.head?)) := by
    intro b hb
    rcases mem_head_append hb with hb | ⟨hnil, hb⟩
    · exact Or.inl (hp.head hb)
    · exact Or.inr ⟨hnil, hu2 b hb⟩
  have hu0 : ∀ b ∈ (l ++ (p ++ (l' ++ (optionsText options ++ rest)))).head?,
      nameEnds.contains b = true := by
    intro b hb
    rcases mem_head_append hb with hb | ⟨hlnil, hb⟩
    · rw [hl.head hb]
      decide
    rcases hu1 b hb with rfl | ⟨_, ⟨rfl, _⟩ | ⟨hl'nil, rfl | ⟨hoptions, hb⟩⟩⟩
    · decide
    · decide
    · decide
    have hopen : ¬ closed := by simp [hclosed, hoptions, hl'nil, hlnil]
    exact (blank_facts (blank_of_open hends hglued hopen hb)).2.2.1
  have hname' : dcc_dup_part (name ++ (l ++ (p ++ (l' ++ (optionsText options ++ rest))))) nameEnds =
      (some name, l ++ (p ++ (l' ++ (optionsText options ++ rest)))) := by
    rw [dcc_dup_part_append hname.2 hu0, if_neg hname.1]
  have hfirst : dcc_parse_multiplier longBits
      (l ++ (p ++ (l' ++ (optionsText options ++ rest)))) 4 =
      .ok (n, p ++ (l' ++ (optionsText options ++ rest))) := by
    apply dcc_parse_multiplier_text hlong hl
    · intro hlnil b hb
      rcases hu1 b hb with rfl | ⟨hpnil, ⟨_, hl'ne⟩ | ⟨_, rfl | ⟨_, hb⟩⟩⟩
      · decide
      · exact absurd (hnormal hlnil hpnil) hl'ne
      · decide
      · exact (hends.facts hb).2.1
    · intro b hb
      rcases hu1 b hb with rfl | ⟨_, ⟨rfl, _⟩ | ⟨_, rfl | ⟨_, hb⟩⟩⟩
      · decide
      · decide
      · decide
      · exact ⟨(hends.facts hb).1, (hends.facts hb).2.2.1⟩
  have hport : parsePort longBits (p ++ (l' ++ (optionsText options ++ rest))) =
      .ok (port, l' ++ (optionsText options ++ rest)) := by
    apply parsePort_text hlong hp
    · intro _ b hb
      rcases hu2 b hb with ⟨rfl, _⟩ | ⟨_, rfl | ⟨_, hb⟩⟩
      · decide
      · decide
      · exact (hends.facts hb).2.2.2.1
    · intro hpne b hb
      rcases hu2 b hb with ⟨rfl, _⟩ | ⟨hl'nil, rfl | ⟨hoptions, hb⟩⟩
      · decide
      · decide
      have hopen : ¬ closed := by simp [hclosed, hoptions, hl'nil, hpne]
      have hblank := blank_facts (blank_of_open hends hglued hopen hb)
      exact ⟨hblank.1, Or.inl hblank.2.1⟩
  have hsecond : dcc_parse_multiplier longBits (l' ++ (optionsText options ++ rest)) n =
      .ok (n', optionsText options ++ rest) := by
    apply dcc_parse_multiplier_text hlong hl'
    · intro _ b hb
      rcases hu3 b hb with rfl | ⟨_, hb⟩
      · decide
      · exact (hends.facts hb).2.1
    · intro b hb
      rcases hu3 b hb with rfl | ⟨_, hb⟩
      · decide
      · exact ⟨(hends.facts hb).1, (hends.facts hb).2.2.1⟩
  have hcomma : ∀ b ∈ rest.head?, b ≠ 44 := fun b hb => (hends.facts hb).2.2.2.2
  have hslots : (newHost tok).n_slots = 4 := rfl
  have htext : tok ++ rest = name ++ (l ++ (p ++ (l' ++ (optionsText options ++ rest)))) := by
    simp [htok]
  unfold dcc_parse_tcp_host
  rw [htext, hname']
  simp only [hslots, hfirst, hport, hsecond, bind, Except.bind]
  rw [dcc_parse_options_text hcomma hcompat rfl]
  rfl

theorem SshSpec.parses (hlong : 32 ≤ longBits) (hends : EndsBefore rest)
    (h : SshSpec tok host closed) (hglued : rest.head? = some 35 → closed) :
    dcc_parse_ssh_host longBits (newHost tok) (tok ++ rest) = .ok host := by
  obtain ⟨user, name, l, n, c, command, options, htok, huser, hname, hl, hc, hcompat, hclosed, rfl⟩ := h
  have hu2 : ∀ b ∈ (optionsText options ++ rest).head?,
      b = 44 ∨ options = [] ∧ b ∈ rest.head? := by
    intro b hb
    rcases mem_head_append hb with hb | ⟨hnil, hb⟩
    · exact Or.inl (optionsText_head hb)
    · exact Or.inr ⟨optionsText_eq_nil hnil, hb⟩
  have hu1 : ∀ b ∈ (c ++ (optionsText options ++ rest)).head?,
      b = 58 ∨ c = [] ∧ (b = 44 ∨ options = [] ∧ b ∈ rest.head?) := by
    intro b hb
    rcases mem_head_append hb with hb | ⟨hnil, hb⟩
    · exact Or.inl (hc.head hb)
    · exact Or.inr ⟨hnil, hu2 b hb⟩
  have hu0 : ∀ b ∈ (l ++ (c ++ (optionsText options ++ rest))).head?,
      nameEnds.contains b = true := by
    intro b hb
    rcases mem_head_append hb with hb | ⟨hlnil, hb⟩
    · rw [hl.head hb]
      decide
    rcases hu1 b hb with rfl | ⟨_, rfl | ⟨hoptions, hb⟩⟩
    · decide
    · decide
    have hopen : ¬ closed := by simp [hclosed, hoptions, hlnil]
    exact (blank_facts (blank_of_open hends hglued hopen hb)).2.2.1
  have huser' : dcc_dup_part (user ++ 64 :: (name ++ (l ++ (c ++ (optionsText options ++ rest)))))
      (ascii "@") = (if user = [] then none else some user,
        64 :: (name ++ (l ++ (c ++ (optionsText options ++ rest))))) := by
    apply dcc_dup_part_append
    · intro b hb
      have hne := huser b hb
      simp [ascii, hne]
    · intro b hb
      cases hb
      decide
  have hname' : dcc_dup_part (name ++ (l ++ (c ++ (optionsText options ++ rest)))) nameEnds =
      (some name, l ++ (c ++ (optionsText options ++ rest))) := by
    rw [dcc_dup_part_append hname.2 hu0, if_neg hname.1]
  have hlimit : dcc_parse_multiplier longBits (l ++ (c ++ (optionsText options ++ rest))) 4 =
      .ok (n, c ++ (optionsText options ++ rest)) := by
    apply dcc_parse_multiplier_text hlong hl
    · intro _ b hb
      rcases hu1 b hb with rfl | ⟨_, rfl | ⟨_, hb⟩⟩
      · decide
      · decide
      · exact (hends.facts hb).2.1
    · intro b hb
      rcases hu1 b hb with rfl | ⟨_, rfl | ⟨_, hb⟩⟩
      · decide
      · decide
      · exact ⟨(hends.facts hb).1, (hends.facts hb).2.2.1⟩
  have hcommand : parseCommand (c ++ (optionsText options ++ rest)) =
      (command, optionsText options ++ rest) := by
    apply parseCommand_text hc
    · intro _ b hb
      rcases hu2 b hb with rfl | ⟨_, hb⟩
      · decide
      · exact (hends.facts hb).2.2.2.1
    · intro hcne b hb
      rcases hu2 b hb with rfl | ⟨hoptions, hb⟩
      · decide
      have hopen : ¬ closed := by simp [hclosed, hoptions, hcne]
      exact (blank_facts (blank_of_open hends hglued hopen hb)).2.2.2.1
  have hcomma : ∀ b ∈ rest.head?, b ≠ 44 := fun b hb => (hends.facts hb).2.2.2.2
  have hslots : (newHost tok).n_slots = 4 := rfl
  have htext : tok ++ rest = user ++ 64 :: (name ++ (l ++ (c ++ (optionsText options ++ rest)))) := by
    simp [htok]
  unfold dcc_parse_ssh_host
  rw [htext, huser']
  simp only [hname', hslots, hlimit, hcommand, bind, Except.bind]
  rw [dcc_parse_options_text hcomma hcompat rfl]
  rfl

theorem LocalSpec.parses (hlong : 32 ≤ longBits) (hends : EndsBefore rest)
    (h : LocalSpec tok host) :
    dcc_parse_localhost longBits (newHost tok) (tok ++ rest) = .ok host := by
  obtain ⟨l, n, htok, hl, rfl⟩ := h
  have hlimit : dcc_parse_multiplier longBits (l ++ rest) 2 = .ok (n, rest) := by
    apply dcc_parse_multiplier_text hlong hl
    · intro _ b hb
      exact (hends.facts hb).2.1
    · intro b hb
      exact ⟨(hends.facts hb).1, (hends.facts hb).2.2.1⟩
  have hdrop : (tok ++ rest).drop 9 = l ++ rest := by
    rw [htok, append_assoc]
    rfl
  unfold dcc_parse_localhost
  rw [hdrop, hlimit]
  rfl

end Tokens
end Toolwhip.Distcc
