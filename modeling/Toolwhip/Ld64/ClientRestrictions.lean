import Mathlib.Data.List.TakeWhile
import Toolwhip.Ld64.ReExportMarks

/-! # Linker::checkDylibClientRestrictions -/

namespace Toolwhip.Ld64.Clients
set_option autoImplicit false

open Dylib List

/-- The names of the output. -/
structure OutputNames where
  installPath : Path
  umbrellaName : Option Path
  clientName : Option Path

/-- What a dylib says about who may link with it. -/
structure Restrictions where
  getPath : Path
  parentUmbrella : Option Path
  getAllowableClients : Option (List Path)

inductive Refusal where
  /-- `cannot link directly with %s. Link against the umbrella framework '%s.framework' instead.` -/
  | umbrella (path parentUmbrella : Path)
  /-- `cannot link directly with %s` -/
  | direct (path : Path)
  deriving DecidableEq, Repr

def isParent (leaf readerParentName : Path) : Bool :=
  leaf == readerParentName ||
    ('_' ∈ leaf && strncmpEqual leaf readerParentName (leaf.takeWhile (· ≠ '_')).length)

def isSibling (umbrellaName : Option Path) (readerParentName : Path) : Bool :=
  umbrellaName == some readerParentName

def inferredStart (installName : Path) : Path :=
  let clientName := leafStart installName
  if clientName.take 3 = ['l', 'i', 'b'] then clientName.drop 3 else clientName

/-- `clientNameLen` is up to the first dot or underscore. Without one it is the length of the whole
path. -/
def inferredLength (installName : Path) : Nat :=
  let clientName := inferredStart installName
  let toDot := if '.' ∈ clientName then (clientName.takeWhile (· ≠ '.')).length else installName.length
  let toUnderscore := (clientName.takeWhile (· ≠ '_')).length
  if '_' ∈ clientName ∧ toUnderscore < toDot then toUnderscore else toDot

/-- `clientName` and `clientNameLen` -/
def comparedClient (out : OutputNames) : Path × Nat :=
  match out.clientName with
  | some clientName => (clientName, clientName.length)
  | none => (inferredStart out.installPath, inferredLength out.installPath)

def isAllowableClient (out : OutputNames) (clients : List Path) : Bool :=
  clients.any fun it => strncmpEqual it (comparedClient out).1 (comparedClient out).2

def inUmbrella (out : OutputNames) (parentUmbrella : Option Path) : Bool :=
  match parentUmbrella, Dylib.leafName out.installPath with
  | some readerParentName, some leaf =>
    isParent leaf readerParentName || isSibling out.umbrellaName readerParentName
  | _, _ => false

def checkDylibClientRestrictions (out : OutputNames) (reader : Restrictions) : Except Refusal Unit :=
  if reader.parentUmbrella.isSome || reader.getAllowableClients.isSome then
    if inUmbrella out reader.parentUmbrella ||
        reader.getAllowableClients.any (isAllowableClient out) then .ok ()
    else
      match reader.parentUmbrella with
      | some readerParentName => .error (.umbrella reader.getPath readerParentName)
      | none => .error (.direct reader.getPath)
  else .ok ()

/-! ## Who may link with a dylib -/

/-- The name that is given, or the leaf name without `lib` up to its first dot or underscore. -/
def clientOf (out : OutputNames) : Path :=
  match out.clientName with
  | some clientName => clientName
  | none => (inferredStart out.installPath).takeWhile fun c => c ≠ '.' ∧ c ≠ '_'

def IsUmbrella (out : OutputNames) (parent : Path) : Prop :=
  ∃ leaf, Dylib.leafName out.installPath = some leaf ∧
    (leaf = parent ∨ '_' ∈ leaf ∧ leaf.takeWhile (· ≠ '_') = parent)

def MayLink (out : OutputNames) (reader : Restrictions) : Prop :=
  (∃ parent, reader.parentUmbrella = some parent ∧
    (IsUmbrella out parent ∨ out.umbrellaName = some parent)) ∨
  ∃ clients, reader.getAllowableClients = some clients ∧ clientOf out ∈ clients

def OnlyClients (out : OutputNames) (reader : Restrictions) : Prop :=
  reader.parentUmbrella ≠ none ∨ reader.getAllowableClients ≠ none →
    checkDylibClientRestrictions out reader = .ok () → MayLink out reader

def ProperlyStarts (short long : Path) : Prop := short <+: long ∧ short ≠ long

def LongerUmbrella (out : OutputNames) (reader : Restrictions) : Prop :=
  ∃ parent leaf, reader.parentUmbrella = some parent ∧ Dylib.leafName out.installPath = some leaf ∧
    '_' ∈ leaf ∧ ProperlyStarts (leaf.takeWhile (· ≠ '_')) parent

def OwnLength (out : OutputNames) : Prop := (comparedClient out).2 = (clientOf out).length

def LongerClient (out : OutputNames) (reader : Restrictions) : Prop :=
  OwnLength out ∧ ∃ clients, reader.getAllowableClients = some clients ∧
    ∃ it ∈ clients, ProperlyStarts (clientOf out) it

section Compare
variable {out : OutputNames} {leaf parent name it : Path}

theorem takeWhile_take {p : Char → Bool} (l : Path) : l.take (l.takeWhile p).length = l.takeWhile p :=
  (List.prefix_iff_eq_take.mp <| takeWhile_prefix p).symm

theorem strncmp_own {short long : Path} (h : name.take short.length = short) :
    strncmpEqual long name short.length = true ↔ short <+: long := by
  unfold strncmpEqual
  rw [h, beq_iff_eq, prefix_iff_eq_take]
  exact eq_comm

theorem strncmp_whole {n : Nat} (h : name.length < n) :
    strncmpEqual it name n = true ↔ it = name := by
  unfold strncmpEqual
  rw [beq_iff_eq, take_of_length_le (Nat.le_of_lt h)]
  constructor
  · intro heq
    have hlen := congrArg List.length heq
    rw [length_take] at hlen
    rw [← heq, take_of_length_le (by omega)]
  · intro heq
    rw [heq, take_of_length_le (Nat.le_of_lt h)]

theorem isParent_iff : isParent leaf parent = true ↔
    leaf = parent ∨ '_' ∈ leaf ∧ leaf.takeWhile (· ≠ '_') <+: parent := by
  have hown : strncmpEqual leaf parent (leaf.takeWhile (· ≠ '_')).length = true ↔
      leaf.takeWhile (· ≠ '_') <+: parent := by
    unfold strncmpEqual
    rw [takeWhile_take, beq_iff_eq, prefix_iff_eq_take]
  unfold isParent
  rw [Bool.or_eq_true, Bool.and_eq_true, beq_iff_eq, decide_eq_true_eq, hown]

theorem length_takeWhile_and (l : Path) : (l.takeWhile fun c => c ≠ '.' ∧ c ≠ '_').length =
      min (l.takeWhile (· ≠ '.')).length (l.takeWhile (· ≠ '_')).length := by
  induction l with
  | nil => rfl
  | cons c l ih =>
    by_cases hdot : c = '.'
    · simp [hdot]
    by_cases hunderscore : c = '_'
    · simp [hunderscore]
    rw [takeWhile_cons_of_pos (by simp [hdot, hunderscore]),
      takeWhile_cons_of_pos (by simpa using hdot),
      takeWhile_cons_of_pos (by simpa using hunderscore)]
    simp only [length_cons, ih]
    omega

theorem takeWhile_ne_of_not_mem {c : Char} {l : Path} (h : c ∉ l) : l.takeWhile (· ≠ c) = l := by
  rw [takeWhile_eq_self_iff]
  intro d hd
  simp only [ne_eq, decide_eq_true_eq]
  intro heq
  rw [heq] at hd
  exact h hd

theorem length_takeWhile_lt {c : Char} {l : Path} (h : c ∈ l) :
    (l.takeWhile (· ≠ c)).length < l.length := by
  have hle := (takeWhile_sublist (p := (· ≠ c)) (l := l)).length_le
  rcases Nat.lt_or_ge (l.takeWhile (· ≠ c)).length l.length with hlt | hge
  · exact hlt
  have heq := (takeWhile_sublist (p := (· ≠ c)) (l := l)).eq_of_length (by omega)
  have hc := List.takeWhile_eq_self_iff.mp heq c h
  simp at hc

theorem length_leafStart_le (path : Path) : (leafStart path).length ≤ path.length := by
  unfold leafStart Dylib.leafName
  split
  · rw [Option.getD_some, length_reverse]
    have hle := (takeWhile_sublist (p := (· ≠ '/')) (l := path.reverse)).length_le
    rwa [length_reverse] at hle
  · exact Nat.le_refl _

theorem length_inferredStart_le (path : Path) : (inferredStart path).length ≤ path.length := by
  have hle := length_leafStart_le path
  unfold inferredStart
  dsimp only
  split
  · rw [length_drop]
    omega
  · exact hle

/-- The compared length is that of the client's name, or goes beyond the end of it. -/
theorem inferredLength_cases (path : Path) :
    inferredLength path = ((inferredStart path).takeWhile fun c => c ≠ '.' ∧ c ≠ '_').length ∨
      ((inferredStart path).takeWhile fun c => c ≠ '.' ∧ c ≠ '_') = inferredStart path ∧
        (inferredStart path).length < inferredLength path := by
  have hle := length_inferredStart_le path
  have hmin := length_takeWhile_and (inferredStart path)
  unfold inferredLength
  dsimp only
  by_cases hdot : '.' ∈ inferredStart path
  · rw [if_pos hdot]
    have hdotlen := length_takeWhile_lt hdot
    by_cases hunderscore : '_' ∈ inferredStart path
    · simp only [hunderscore, true_and]
      split <;> omega
    have hall := congrArg List.length (takeWhile_ne_of_not_mem hunderscore)
    rw [if_neg (fun h => hunderscore h.1)]
    omega
  · rw [if_neg hdot]
    have halldot := congrArg List.length (takeWhile_ne_of_not_mem hdot)
    by_cases hunderscore : '_' ∈ inferredStart path
    · have hlen := length_takeWhile_lt hunderscore
      rw [if_pos ⟨hunderscore, by omega⟩]
      omega
    have hall := congrArg List.length (takeWhile_ne_of_not_mem hunderscore)
    rw [if_neg (fun h => hunderscore h.1)]
    rcases Nat.eq_or_lt_of_le hle with heq | hlt
    · left
      omega
    right
    have hwhole := (takeWhile_sublist (p := fun c => decide (c ≠ '.' ∧ c ≠ '_'))
      (l := inferredStart path)).eq_of_length (by omega)
    exact ⟨hwhole, hlt⟩

theorem take_comparedClient (out : OutputNames) :
    (comparedClient out).1.take (clientOf out).length = clientOf out := by
  unfold comparedClient clientOf
  cases out.clientName with
  | some clientName => exact take_length
  | none => exact (List.prefix_iff_eq_take.mp <| takeWhile_prefix _).symm

theorem comparedClient_beyond (h : ¬ OwnLength out) : (comparedClient out).1 = clientOf out ∧
      (clientOf out).length < (comparedClient out).2 := by
  unfold OwnLength comparedClient clientOf at h
  unfold comparedClient clientOf
  cases hname : out.clientName with
  | some clientName =>
    rw [hname] at h
    exact absurd rfl h
  | none =>
    rw [hname] at h
    rcases inferredLength_cases out.installPath with hown | ⟨hwhole, hlt⟩
    · exact absurd hown h
    rw [hwhole]
    exact ⟨rfl, hlt⟩

theorem strncmp_client : strncmpEqual it (comparedClient out).1 (comparedClient out).2 = true ↔
    it = clientOf out ∨ OwnLength out ∧ ProperlyStarts (clientOf out) it := by
  by_cases hown : OwnLength out
  · have hlength : (comparedClient out).2 = (clientOf out).length := hown
    rw [hlength, strncmp_own (take_comparedClient out)]
    constructor
    · intro hstarts
      by_cases heq : it = clientOf out
      · exact Or.inl heq
      · exact Or.inr ⟨hown, hstarts, Ne.symm heq⟩
    · intro h
      rcases h with heq | ⟨_, hstarts, _⟩
      · rw [heq]
      · exact hstarts
  · obtain ⟨hname, hlt⟩ := comparedClient_beyond hown
    rw [hname, strncmp_whole hlt]
    simp [hown]

theorem isAllowableClient_iff {clients : List Path} : isAllowableClient out clients = true ↔
    clientOf out ∈ clients ∨ OwnLength out ∧ ∃ it ∈ clients, ProperlyStarts (clientOf out) it := by
  unfold isAllowableClient
  rw [any_eq_true]
  simp only [strncmp_client]
  constructor
  · intro h
    obtain ⟨it, hit, heq | ⟨hown, hlonger⟩⟩ := h
    · rw [heq] at hit
      exact Or.inl hit
    · exact Or.inr ⟨hown, it, hit, hlonger⟩
  · intro h
    rcases h with hmem | ⟨hown, it, hit, hlonger⟩
    · exact ⟨_, hmem, Or.inl rfl⟩
    · exact ⟨it, hit, Or.inr ⟨hown, hlonger⟩⟩

end Compare

section Check
variable {out : OutputNames} {reader : Restrictions} {parent : Path}

theorem inUmbrella_sound (h : inUmbrella out reader.parentUmbrella = true) :
    MayLink out reader ∨ LongerUmbrella out reader := by
  unfold inUmbrella at h
  cases hparent : reader.parentUmbrella with
  | none =>
    rw [hparent] at h
    cases h
  | some parent =>
    cases hleaf : Dylib.leafName out.installPath with
    | none =>
      rw [hparent, hleaf] at h
      cases h
    | some leaf =>
      rw [hparent, hleaf] at h
      simp only [Bool.or_eq_true] at h
      rcases h with h | h
      · rcases isParent_iff.mp h with heq | ⟨hunderscore, hstarts⟩
        · exact Or.inl (Or.inl ⟨parent, hparent, Or.inl ⟨leaf, hleaf, Or.inl heq⟩⟩)
        by_cases heq : leaf.takeWhile (· ≠ '_') = parent
        · exact Or.inl (Or.inl ⟨parent, hparent, Or.inl ⟨leaf, hleaf, Or.inr ⟨hunderscore, heq⟩⟩⟩)
        · exact Or.inr ⟨parent, leaf, hparent, hleaf, hunderscore, hstarts, heq⟩
      · exact Or.inl (Or.inl ⟨parent, hparent, Or.inr (beq_iff_eq.mp h)⟩)

theorem inUmbrella_of_longer (h : LongerUmbrella out reader) :
    inUmbrella out reader.parentUmbrella = true := by
  obtain ⟨parent, leaf, hparent, hleaf, hunderscore, hstarts, _⟩ := h
  unfold inUmbrella
  rw [hparent, hleaf]
  simp only [Bool.or_eq_true]
  exact Or.inl (isParent_iff.mpr (Or.inr ⟨hunderscore, hstarts⟩))

theorem allowable_sound (h : reader.getAllowableClients.any (isAllowableClient out) = true) :
    MayLink out reader ∨ LongerClient out reader := by
  cases hclients : reader.getAllowableClients with
  | none =>
    rw [hclients] at h
    cases h
  | some clients =>
    rw [hclients, Option.any_some] at h
    rcases isAllowableClient_iff.mp h with hmem | ⟨hown, hlonger⟩
    · exact Or.inl (Or.inr ⟨clients, hclients, hmem⟩)
    · exact Or.inr ⟨hown, clients, hclients, hlonger⟩

theorem allowable_of_longer (h : LongerClient out reader) :
    reader.getAllowableClients.any (isAllowableClient out) = true := by
  obtain ⟨hown, clients, hclients, hlonger⟩ := h
  rw [hclients, Option.any_some]
  exact isAllowableClient_iff.mpr (Or.inr ⟨hown, hlonger⟩)

theorem check_ok_iff (h : reader.parentUmbrella ≠ none ∨ reader.getAllowableClients ≠ none) :
    checkDylibClientRestrictions out reader = .ok () ↔
      inUmbrella out reader.parentUmbrella = true ∨
        reader.getAllowableClients.any (isAllowableClient out) = true := by
  have hrestricted : (reader.parentUmbrella.isSome || reader.getAllowableClients.isSome) = true := by
    rw [Bool.or_eq_true, Option.isSome_iff_ne_none, Option.isSome_iff_ne_none]
    exact h
  unfold checkDylibClientRestrictions
  rw [if_pos hrestricted, ← Bool.or_eq_true]
  split
  · rename_i hfound
    exact iff_of_true rfl hfound
  rename_i hfound
  refine iff_of_false ?_ hfound
  intro hok
  split at hok
  · cases hok
  · cases hok

/-- Unless a longer name is all that there is. -/
theorem onlyClients_iff (out : OutputNames) (reader : Restrictions) : OnlyClients out reader ↔
      (LongerUmbrella out reader ∨ LongerClient out reader → MayLink out reader) := by
  constructor
  · intro honly hlonger
    rcases hlonger with hlonger | hlonger
    · have hrestricted : reader.parentUmbrella ≠ none := by
        obtain ⟨parent, _, hparent, _⟩ := hlonger
        rw [hparent]
        exact Option.some_ne_none parent
      apply honly (Or.inl hrestricted)
      exact (check_ok_iff (Or.inl hrestricted)).mpr (Or.inl (inUmbrella_of_longer hlonger))
    · have hrestricted : reader.getAllowableClients ≠ none := by
        obtain ⟨_, clients, hclients, _⟩ := hlonger
        rw [hclients]
        exact Option.some_ne_none clients
      apply honly (Or.inr hrestricted)
      exact (check_ok_iff (Or.inr hrestricted)).mpr (Or.inr (allowable_of_longer hlonger))
  · intro h hrestricted hok
    have hsound : MayLink out reader ∨ LongerUmbrella out reader ∨ LongerClient out reader := by
      rcases (check_ok_iff hrestricted).mp hok with hfound | hfound
      · rcases inUmbrella_sound hfound with hmay | hlonger
        · exact Or.inl hmay
        · exact Or.inr (Or.inl hlonger)
      · rcases allowable_sound hfound with hmay | hlonger
        · exact Or.inl hmay
        · exact Or.inr (Or.inr hlonger)
    rcases hsound with hmay | hlonger
    · exact hmay
    · exact h hlonger

/-- `-client_name Foo`, and a dylib for the clients of the name `Foobar`. -/
theorem onlyClients_prefix : ¬ ∀ out reader, OnlyClients out reader := by
  intro hclaim
  have hmay := hclaim ⟨"/usr/lib/libFoo.dylib".toList, none, some "Foo".toList⟩
    ⟨"/usr/lib/libBar.dylib".toList, none, some ["Foobar".toList]⟩
    (Or.inr (Option.some_ne_none _)) (by decide)
  rcases hmay with ⟨parent, hparent, _⟩ | ⟨clients, hclients, hmem⟩
  · cases hparent
  cases hclients
  revert hmem
  decide

end Check
end Toolwhip.Ld64.Clients
