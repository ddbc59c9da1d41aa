import Toolwhip.Lib.BitFields
import Toolwhip.Lib.ThrowingFold
import Toolwhip.Ld64.ObjectFile

/-! # Relocations of an object file

What `ld -r` writes for a reference and what a reader makes of it: the relocation
entries of MachOFileAbstraction.hpp, the parts of `Writer<A>` and `Reader<A>` that the
architectures share, and references on both sides. -/

namespace Toolwhip.Ld64.Reloc
open Lib.BitFields List BitVec
set_option autoImplicit false
variable {Kinds : Type}

inductive SymbolTableInclusion where
  | kSymbolTableNotIn
  | kSymbolTableIn
  | kSymbolTableInAndNeverStrip
  | kSymbolTableInAsAbsolute
  deriving DecidableEq, Repr

/-- What the relocation code asks of an atom; `pointer` tells atoms apart. -/
structure Atom where
  pointer : AtomPtr
  getName : Option String
  getAddress : BitVec 64
  getSectionOffset : BitVec 64 := 0
  getDefinitionKind : DefinitionKind := .kRegularDefinition
  getScope : Scope := .scopeGlobal
  getSymbolTableInclusion : SymbolTableInclusion := .kSymbolTableIn
  isThumb : Bool := false
  getSize : BitVec 64 := 0
  /-- of an `AnonymousAtom` -/
  isWeakImportStub : Bool := false
  sectionIndex : BitVec 8 := 1
  fAllNonLazyPointers : Bool := false
  deriving DecidableEq

def Atom.address32 (a : Atom) : BitVec 32 := a.getAddress.setWidth 32

/-! ## Entries -/

/-- The two words of an entry: `address` and `other`, or of a scattered one `other` and
`value`. -/
structure RelocWords where
  address : BitVec 32
  other : BitVec 32
  deriving DecidableEq

inductive WriteError where
  | thrown (message : String)
  deriving DecidableEq, Repr

/-- A number that is outside of `-limit` to `limit`. -/
def outOfRange (displacement : BitVec 64) (limit : Int) : Bool :=
  limit < displacement.toInt || displacement.toInt < -limit

theorem outOfRange_false {d : BitVec 64} {limit : Int} (h : outOfRange d limit = false) :
    -limit ≤ d.toInt ∧ d.toInt ≤ limit := by
  unfold outOfRange at h
  simp only [Bool.or_eq_false_iff, decide_eq_false_iff_not, Int.not_lt] at h
  exact ⟨h.2, h.1⟩

theorem ite_error_ok {c : Bool} {e : WriteError} {n : Nat} {a b : BitVec n}
    (h : (if c then Except.error e else .ok a) = Except.ok b) : c = false ∧ b = a := by
  cases c with
  | false => exact ⟨rfl, (Except.ok.inj h).symm⟩
  | true => cases h

namespace RelocWords

def r_address (r : RelocWords) : BitVec 32 := r.address
def r_symbolnum (r : RelocWords) : BitVec 24 := r.other.extractLsb' 0 24
def r_pcrel (r : RelocWords) : Bool := r.other.extractLsb' 24 1 == 1#1
def r_length (r : RelocWords) : BitVec 2 := r.other.extractLsb' 25 2
def r_external (r : RelocWords) : Bool := r.other.extractLsb' 27 1 == 1#1
def r_type (r : RelocWords) : BitVec 4 := r.other.extractLsb' 28 4

/-- `r_address() & R_SCATTERED` -/
def r_scattered (r : RelocWords) : Bool := r.address.extractLsb' 31 1 == 1#1
def sr_pcrel (r : RelocWords) : Bool := r.address.extractLsb' 30 1 == 1#1
def sr_length (r : RelocWords) : BitVec 2 := r.address.extractLsb' 28 2
def sr_type (r : RelocWords) : BitVec 4 := r.address.extractLsb' 24 4
def sr_address (r : RelocWords) : BitVec 32 := (r.address.extractLsb' 0 24).setWidth 32
def sr_value (r : RelocWords) : BitVec 32 := r.other

end RelocWords

/-- A `macho_relocation_info` with all its fields set. -/
def relocationInfo (address symbolnum : BitVec 32) (pcrel : Bool) (length : BitVec 2)
    (isExtern : Bool) (type : BitVec 4) : RelocWords where
  address := address
  other := type ++ (BitVec.ofBool isExtern ++ (length ++ (BitVec.ofBool pcrel ++
    symbolnum.setWidth 24)))

/-- A `macho_scattered_relocation_info`. -/
def scatteredInfo (address : BitVec 32) (pcrel : Bool) (length : BitVec 2) (type : BitVec 4)
    (value : BitVec 32) : Except WriteError RelocWords :=
  if 0x00FFFFFF < address then .error (.thrown "scattered reloc r_address too large")
  else .ok ⟨1#1 ++ (BitVec.ofBool pcrel ++ (length ++ (type ++ address.setWidth 24))), value⟩

section Fields
variable (address symbolnum value : BitVec 32) (pcrel isExtern : Bool) (length : BitVec 2)
  (type : BitVec 4)

theorem r_scattered_of_lt {r : RelocWords} (h : r.address < 0x80000000) :
    r.r_scattered = false := by
  have hbit : r.address.extractLsb' 31 1 = 0#1 := by
    apply eq_of_toNat_eq
    rw [extractLsb'_toNat]
    have : r.address.toNat < 0x80000000 := h
    simp only [toNat_zero, Nat.shiftRight_eq_div_pow]
    omega
  unfold RelocWords.r_scattered
  rw [hbit]
  rfl

theorem relocationInfo_type :
    (relocationInfo address symbolnum pcrel length isExtern type).r_type = type :=
  extract_high (n := 28) type _

theorem relocationInfo_external :
    (relocationInfo address symbolnum pcrel length isExtern type).r_external = isExtern := by
  unfold RelocWords.r_external relocationInfo
  rw [extract_in_low (n := 28) _ _ (by decide), extract_high (n := 27)]
  exact ofBool_beq_one isExtern

theorem relocationInfo_length :
    (relocationInfo address symbolnum pcrel length isExtern type).r_length = length := by
  unfold RelocWords.r_length relocationInfo
  rw [extract_in_low (n := 28) _ _ (by decide), extract_in_low (n := 27) _ _ (by decide)]
  exact extract_high (n := 25) length _

theorem relocationInfo_pcrel :
    (relocationInfo address symbolnum pcrel length isExtern type).r_pcrel = pcrel := by
  unfold RelocWords.r_pcrel relocationInfo
  rw [extract_in_low (n := 28) _ _ (by decide), extract_in_low (n := 27) _ _ (by decide),
    extract_in_low (n := 25) _ _ (by decide), extract_high (n := 24)]
  exact ofBool_beq_one pcrel

theorem relocationInfo_symbolnum :
    (relocationInfo address symbolnum pcrel length isExtern type).r_symbolnum =
      symbolnum.setWidth 24 := by
  unfold RelocWords.r_symbolnum relocationInfo
  rw [extract_in_low (n := 28) _ _ (by decide), extract_in_low (n := 27) _ _ (by decide),
    extract_in_low (n := 25) _ _ (by decide)]
  exact extract_low _ _

/-- What is read from an entry that is not scattered. -/
structure IsPlain (r : RelocWords) (address : BitVec 32) (symbolnum : BitVec 24) (pcrel : Bool)
    (length : BitVec 2) (isExtern : Bool) (type : BitVec 4) : Prop where
  scattered : r.r_scattered = false
  address : r.r_address = address
  symbolnum : r.r_symbolnum = symbolnum
  pcrel : r.r_pcrel = pcrel
  length : r.r_length = length
  isExtern : r.r_external = isExtern
  type : r.r_type = type

theorem relocationInfo_plain (h : address < 0x80000000) :
    IsPlain (relocationInfo address symbolnum pcrel length isExtern type) address
      (symbolnum.setWidth 24) pcrel length isExtern type where
  scattered := r_scattered_of_lt h
  address := rfl
  symbolnum := relocationInfo_symbolnum _ _ _ _ _ _
  pcrel := relocationInfo_pcrel _ _ _ _ _ _
  length := relocationInfo_length _ _ _ _ _ _
  isExtern := relocationInfo_external _ _ _ _ _ _
  type := relocationInfo_type _ _ _ _ _ _

variable {address value pcrel length type} {r : RelocWords}

/-- What is read from a scattered entry that could be written. -/
structure IsScattered (r : RelocWords) (address : BitVec 32) (pcrel : Bool) (length : BitVec 2)
    (type : BitVec 4) (value : BitVec 32) : Prop where
  scattered : r.r_scattered = true
  pcrel : r.sr_pcrel = pcrel
  length : r.sr_length = length
  type : r.sr_type = type
  address : r.sr_address = address
  value : r.sr_value = value

theorem scatteredInfo_ok (h : scatteredInfo address pcrel length type value = .ok r) :
    IsScattered r address pcrel length type value := by
  unfold scatteredInfo at h
  split at h
  · cases h
  cases h
  constructor
  · unfold RelocWords.r_scattered
    rw [extract_high (n := 31)]
    rfl
  · unfold RelocWords.sr_pcrel
    rw [extract_in_low (n := 31) _ _ (by decide), extract_high (n := 30)]
    exact ofBool_beq_one pcrel
  · unfold RelocWords.sr_length
    rw [extract_in_low (n := 31) _ _ (by decide), extract_in_low (n := 30) _ _ (by decide)]
    exact extract_high (n := 28) length _
  · unfold RelocWords.sr_type
    rw [extract_in_low (n := 31) _ _ (by decide), extract_in_low (n := 30) _ _ (by decide),
      extract_in_low (n := 28) _ _ (by decide)]
    exact extract_high (n := 24) type _
  · unfold RelocWords.sr_address
    rw [extract_in_low (n := 31) _ _ (by decide), extract_in_low (n := 30) _ _ (by decide),
      extract_in_low (n := 28) _ _ (by decide), extract_low]
    bv_omega
  · rfl

end Fields

/-! ## The writer -/

structure Writer where
  fMakeTentativeDefinitionsReal : Bool := false
  keepPrivateExterns : Bool := false
  prebind : Bool := false
  fImportedAtoms : List AtomPtr := []
  fLocalSymbolAtoms : List AtomPtr := []
  fExportedAtoms : List AtomPtr := []
  fSymbolTableImportStartIndex : Nat := 0
  fSymbolTableLocalStartIndex : Nat := 0
  fSymbolTableExportStartIndex : Nat := 0

/-- A reference as the writer sees it, with both sides bound and the 32-bit offsets of
`AtomAndOffset`. -/
structure BoundReference (Kinds : Type) where
  getKind : Kinds
  fFixUpOffsetInSrc : BitVec 32
  getTarget : Atom
  fToTargetOffset : BitVec 32
  getFromTarget : Atom
  fFromTargetOffset : BitVec 32
  deriving DecidableEq

namespace BoundReference
variable {Kinds : Type}

def getFixUpOffset (ref : BoundReference Kinds) : BitVec 64 := ref.fFixUpOffsetInSrc.setWidth 64
/-- `(int64_t)((int32_t)fToTarget.offset)` -/
def getTargetOffset (ref : BoundReference Kinds) : BitVec 64 := ref.fToTargetOffset.signExtend 64
def getFromTargetOffset (ref : BoundReference Kinds) : BitVec 64 :=
  ref.fFromTargetOffset.setWidth 64

theorem getTargetOffset_eq_zero (ref : BoundReference Kinds) :
    ref.getTargetOffset = 0 ↔ ref.fToTargetOffset = 0 := by
  unfold getTargetOffset
  constructor
  · intro h
    have := congrArg (BitVec.setWidth 32) h
    rw [signExtend_truncate _ (by decide)] at this
    exact this
  · intro h
    rw [h]
    rfl

end BoundReference

namespace Writer

/-- `Writer<A>::shouldExport` where the output is an object file. -/
def shouldExport (w : Writer) (atom : Atom) : Bool :=
  match atom.getSymbolTableInclusion with
  | .kSymbolTableNotIn => false
  | .kSymbolTableInAndNeverStrip => true
  | .kSymbolTableInAsAbsolute | .kSymbolTableIn =>
    match atom.getScope with
    | .scopeGlobal => true
    | .scopeLinkageUnit => w.keepPrivateExterns
    | .scopeTranslationUnit => false

/-- All architectures but x86_64. -/
def makesExternalRelocatableReference (w : Writer) (target : Atom) : Bool :=
  match target.getDefinitionKind with
  | .kRegularDefinition | .kWeakDefinition | .kAbsoluteSymbol => false
  | .kTentativeDefinition =>
    if w.fMakeTentativeDefinitionsReal then false else target.getScope != .scopeTranslationUnit
  | .kExternalDefinition | .kExternalWeakDefinition => w.shouldExport target

def symbolIndex (w : Writer) (atom : Atom) : Except WriteError (BitVec 32) :=
  match w.fImportedAtoms.idxOf? atom.pointer, w.fLocalSymbolAtoms.idxOf? atom.pointer,
    w.fExportedAtoms.idxOf? atom.pointer with
  | some i, _, _ => .ok (BitVec.ofNat 32 (i + w.fSymbolTableImportStartIndex))
  | none, some i, _ => .ok (BitVec.ofNat 32 (i + w.fSymbolTableLocalStartIndex))
  | none, none, some i => .ok (BitVec.ofNat 32 (i + w.fSymbolTableExportStartIndex))
  | none, none, none => .error (.thrown "atom not found in symbolIndex")

def indirectSymbolIsLocal {Kinds : Type} (w : Writer) (ref : BoundReference Kinds) : Bool :=
  !w.shouldExport ref.getTarget || ref.getTargetOffset != 0

/-- `r_symbolnum`: an external target's index in the symbol table, or a section's number. -/
def symbolnum (w : Writer) (isExtern : Bool) (target : Atom) : Except WriteError (BitVec 32) :=
  if isExtern then w.symbolIndex target else .ok (target.sectionIndex.setWidth 32)

/-- `atom->getSectionOffset()+ref->getFixUpOffset()` as a `uint32_t`. -/
def relocAddress {Kinds : Type} (atom : Atom) (ref : BoundReference Kinds) : BitVec 32 :=
  (atom.getSectionOffset + ref.getFixUpOffset).setWidth 32

end Writer

/-! ## The reader -/

inductive ReadError where
  | thrown (message : String)
  | nullAtom
  | outOfBounds
  deriving DecidableEq, Repr

structure AtomAndOffset where
  atom : Option Atom := none
  offset : BitVec 32 := 0
  deriving DecidableEq

theorem AtomAndOffset.eq_mk {ao : AtomAndOffset} {atom : Option Atom} {offset : BitVec 32}
    (hatom : ao.atom = atom) (hoffset : ao.offset = offset) : ao = { atom, offset } := by
  subst hatom hoffset
  rfl

/-- The keys of a `std::map` in their order. -/
structure AddrToAtomMap (w : Nat) where
  entries : List (BitVec w × Atom)
  sorted : entries.Pairwise fun x y => x.1 < y.1

/-- What is read of a `macho_nlist`. -/
structure Nlist where
  name : String
  n_value : BitVec 64 := 0
  inSection : Bool := false
  external : Bool := true
  isWeakImportSymbol : Bool := false

structure Section (w : Nat) where
  addr : BitVec w
  size : BitVec w := 0
  segname : String
  sectname : String := ""

structure Reader (w : Nat) where
  fAddrToAtom : AddrToAtomMap w
  fAddrToAbsoluteAtom : List (BitVec w × Atom) := []
  fSymbols : List Nlist := []
  sections : List (Section w) := []

section Find
variable {w : Nat}
variable {l : List (BitVec w × Atom)} {zero : Atom}

/-- The atom with the largest address that is not above `addr`. -/
def findAtomAndOffset (m : AddrToAtomMap w) (addr : BitVec w) : AtomAndOffset :=
  match (m.entries.filter fun it => it.1 ≤ addr).getLast? with
  | none => {}
  | some it => { atom := some it.2, offset := (addr - it.1).setWidth 32 }

def findWithBase (m : AddrToAtomMap w) (baseAddr realAddr : BitVec w) : AtomAndOffset :=
  match m.entries.lookup baseAddr with
  | some atom => { atom := some atom, offset := (realAddr - baseAddr).setWidth 32 }
  | none => findAtomAndOffset m realAddr

variable {m : AddrToAtomMap w} {addr : BitVec w} {atom : Atom}

theorem filter_getLast_of_mem (hl : l.Pairwise fun x y => x.1 < y.1) (h : (addr, atom) ∈ l) :
    (l.filter fun it => it.1 ≤ addr).getLast? = some (addr, atom) := by
  induction l with
  | nil => cases h
  | cons it rest ih =>
    rw [pairwise_cons] at hl
    cases h with
    | head =>
      have hnone : (rest.filter fun it => it.1 ≤ addr) = [] := by
        rw [filter_eq_nil_iff]
        intro x hx
        have := hl.1 x hx
        simp only [decide_eq_true_eq]
        bv_omega
      rw [filter_cons_of_pos (by simp), hnone]
      rfl
    | tail _ h =>
      have hlt := hl.1 _ h
      rw [filter_cons_of_pos (by simp only [decide_eq_true_eq]; bv_omega), getLast?_cons,
        ih hl.2 h]
      rfl

theorem find_of_mem (h : (addr, atom) ∈ m.entries) :
    findAtomAndOffset m addr = { atom := some atom } := by
  unfold findAtomAndOffset
  rw [filter_getLast_of_mem m.sorted h]
  simp

theorem find_mem {ao : AtomAndOffset} (h : findAtomAndOffset m addr = ao) (ha : ao.atom = some atom) :
    ∃ key, (key, atom) ∈ m.entries ∧ ao.offset = (addr - key).setWidth 32 := by
  unfold findAtomAndOffset at h
  split at h
  · subst h
    cases ha
  rename_i it hlast
  subst h
  cases ha
  exact ⟨it.1, (List.mem_filter.mp (mem_of_getLast? hlast)).1, rfl⟩

theorem find_isSome (h : (0, zero) ∈ m.entries) (addr : BitVec w) :
    ∃ a, (findAtomAndOffset m addr).atom = some a := by
  unfold findAtomAndOffset
  split
  · rename_i hnone
    rw [getLast?_eq_none_iff, filter_eq_nil_iff] at hnone
    have hle : 0 ≤ addr := by simp [le_def]
    exact absurd (decide_eq_true hle) (hnone _ h)
  · exact ⟨_, rfl⟩

theorem find_key {a : Atom} (h : (findAtomAndOffset m addr).atom = some a) :
    ∃ key, (key, a) ∈ m.entries ∧ (findAtomAndOffset m addr).offset = (addr - key).setWidth 32 :=
  find_mem rfl h

theorem mem_of_lookup (h : l.lookup addr = some atom) : (addr, atom) ∈ l := by
  obtain ⟨l₁, l₂, h, _⟩ := List.lookup_eq_some_iff.mp h
  rw [h]
  simp

theorem findWithBase_isSome (h : (0, zero) ∈ m.entries) (baseAddr realAddr : BitVec w) :
    ∃ a key, (findWithBase m baseAddr realAddr).atom = some a ∧ (key, a) ∈ m.entries := by
  unfold findWithBase
  split
  · rename_i atom hlookup
    exact ⟨atom, baseAddr, rfl, mem_of_lookup hlookup⟩
  obtain ⟨a, ha⟩ := find_isSome h realAddr
  obtain ⟨key, hmem, _⟩ := find_key ha
  exact ⟨a, key, ha, hmem⟩

theorem lookup_of_mem (hl : l.Pairwise fun x y => x.1 < y.1)
    (h : (addr, atom) ∈ l) : l.lookup addr = some atom := by
  induction l with
  | nil => cases h
  | cons it rest ih =>
    rw [pairwise_cons] at hl
    cases h with
    | head => exact lookup_cons_self
    | tail _ h =>
      have hne : (addr == it.1) = false := by
        have := hl.1 _ h
        rw [beq_eq_false_iff_ne]
        bv_omega
      rw [lookup_cons, hne]
      exact ih hl.2 h

theorem findWithBase_of_mem {realAddr : BitVec w} (h : (addr, atom) ∈ m.entries) :
    findWithBase m addr realAddr = { atom := some atom, offset := (realAddr - addr).setWidth 32 } := by
  unfold findWithBase
  rw [lookup_of_mem m.sorted h]

end Find

/-- A reference that was read. -/
structure Reference (Kinds : Type) where
  fKind : Kinds
  fFixUpOffsetInSrc : BitVec 32
  fToTarget : AtomAndOffset
  fFromTarget : AtomAndOffset := {}
  fToTargetName : Option String := none
  fFromTargetName : Option String := none
  deriving DecidableEq

section References
variable {Kinds : Type}
variable {r : Reference Kinds} {at_ : AtomAndOffset}

/-- `new Reference<A>(kind, at, fromTarget, toTarget)`, for kinds that may be by name. -/
def newReference (kind : Kinds) (at_ fromTarget toTarget : AtomAndOffset) :
    Except ReadError (Reference Kinds) :=
  match at_.atom, toTarget.atom with
  | some src, some atom =>
    if atom.getScope ≠ .scopeTranslationUnit ∧ atom.getDefinitionKind ≠ .kRegularDefinition ∧
        atom.pointer ≠ src.pointer then
      .ok
        { fKind := kind, fFixUpOffsetInSrc := at_.offset
          fToTarget := { toTarget with atom := none }, fFromTarget := fromTarget
          fToTargetName := atom.getName }
    else
      .ok
        { fKind := kind, fFixUpOffsetInSrc := at_.offset, fToTarget := toTarget
          fFromTarget := fromTarget }
  | _, _ => .error .nullAtom

/-- `new Reference<A>(kind, at, toName, toOffset)` -/
def newReferenceByName (kind : Kinds) (at_ : AtomAndOffset) (toName : Option String)
    (toOffset : BitVec 32) : Except ReadError (Reference Kinds) :=
  match at_.atom with
  | some _ =>
    .ok
      { fKind := kind, fFixUpOffsetInSrc := at_.offset
        fToTarget := { offset := toOffset }, fToTargetName := toName }
  | none => .error .nullAtom

def Reader.atoms {w : Nat} (rd : Reader w) : List Atom :=
  rd.fAddrToAtom.entries.map (·.2) ++ rd.fAddrToAbsoluteAtom.map (·.2)

theorem mem_atoms_of_entry {w : Nat} {rd : Reader w} {key : BitVec w} {a : Atom}
    (h : (key, a) ∈ rd.fAddrToAtom.entries) : a ∈ rd.atoms :=
  mem_append_left _ (List.mem_map.mpr ⟨_, h, rfl⟩)

def Reader.Named {w : Nat} (rd : Reader w) (name : Option String) (atom : Atom) : Prop :=
  atom ∈ rd.atoms ∧ atom.getScope ≠ .scopeTranslationUnit ∧ atom.getName = name

def Reader.NamesUnique {w : Nat} (rd : Reader w) : Prop :=
  ∀ a b, rd.Named a.getName b → rd.Named b.getName a → a = b

theorem Reader.namesUnique_of_nodup {w : Nat} {rd : Reader w}
    (h : (rd.atoms.map (·.getName)).Nodup) : rd.NamesUnique := by
  intro a b hb ha
  exact inj_on_of_nodup_map h ha.1 hb.1 ha.2.2

def Reference.PointsTo {w : Nat} (rd : Reader w) (r : Reference Kinds) (atom : Atom)
    (offset : BitVec 32) : Prop :=
  r.fToTarget.offset = offset ∧
    (r.fToTarget.atom = some atom ∨
      r.fToTarget.atom = none ∧ rd.Named r.fToTargetName atom)

variable {w : Nat} {rd : Reader w} {kind : Kinds}

theorem newReference_kind {at_ fromTarget toTarget : AtomAndOffset}
    (h : newReference kind at_ fromTarget toTarget = .ok r) : r.fKind = kind := by
  unfold newReference at h
  split at h
  · split at h
    · cases h
      rfl
    · cases h
      rfl
  · cases h

variable (kind) in
theorem newReference_pointsTo {at_ fromTarget toTarget : AtomAndOffset} {src atom : Atom}
    (hnames : rd.NamesUnique) (hatom : atom ∈ rd.atoms) (hsrc : at_.atom = some src)
    (hto : toTarget.atom = some atom) :
    ∃ r, newReference kind at_ fromTarget toTarget = .ok r ∧ r.fKind = kind ∧
      r.fFixUpOffsetInSrc = at_.offset ∧ r.fFromTarget = fromTarget ∧ r.fFromTargetName = none ∧
      ∀ a offset, r.PointsTo rd a offset ↔ a = atom ∧ offset = toTarget.offset := by
  unfold newReference
  rw [hsrc, hto]
  dsimp only
  split
  · rename_i hbyName
    refine ⟨_, rfl, rfl, rfl, rfl, rfl, ?_⟩
    intro a offset
    constructor
    · intro ⟨hoffset, hpoints⟩
      refine ⟨?_, hoffset.symm⟩
      rcases hpoints with h | ⟨_, ha⟩
      · cases h
      · exact hnames a atom ⟨hatom, hbyName.1, ha.2.2.symm⟩ ha
    · intro ⟨ha, hoffset⟩
      subst ha
      exact ⟨hoffset.symm, Or.inr ⟨rfl, hatom, hbyName.1, rfl⟩⟩
  · refine ⟨_, rfl, rfl, rfl, rfl, rfl, ?_⟩
    intro a offset
    constructor
    · intro ⟨hoffset, hpoints⟩
      refine ⟨?_, hoffset.symm⟩
      rcases hpoints with h | ⟨h, _⟩
      · exact (Option.some.inj (hto.symm.trans h)).symm
      · exact absurd (hto.symm.trans h) (by simp)
    · intro ⟨ha, hoffset⟩
      subst ha
      exact ⟨hoffset.symm, Or.inl hto⟩

theorem pointsTo_byName {atom : Atom} {offset offset' : BitVec 32} (h : r.fToTarget = { offset }) :
    r.PointsTo rd atom offset' ↔ offset' = offset ∧ rd.Named r.fToTargetName atom := by
  unfold Reference.PointsTo
  rw [h]
  constructor
  · intro ⟨hoffset, hpoints⟩
    refine ⟨hoffset.symm, ?_⟩
    rcases hpoints with h | ⟨_, h⟩
    · cases h
    · exact h
  · intro ⟨hoffset, hnamed⟩
    exact ⟨hoffset.symm, Or.inr ⟨rfl, hnamed⟩⟩

theorem newReferenceByName_kind {name : Option String} {offset : BitVec 32}
    (h : newReferenceByName kind at_ name offset = .ok r) : r.fKind = kind := by
  unfold newReferenceByName at h
  split at h
  · cases h
    rfl
  · cases h

theorem newReferenceByName_ok {src : Atom} (hsrc : at_.atom = some src)
    (name : Option String) (offset : BitVec 32) : newReferenceByName kind at_ name offset = .ok
      { fKind := kind, fFixUpOffsetInSrc := at_.offset
        fToTarget := { offset }, fToTargetName := name } := by
  unfold newReferenceByName
  rw [hsrc]

end References

/-- What `addRelocReference` adds, and whether the next entry is to be skipped; after a
reference to a dtrace symbol it adds the types its name lists. -/
structure Decoded (Kinds : Type) where
  reference : Option (Reference Kinds)
  skipNext : Bool := false
  dtraceExtraInfos : Option String := none

def Yields {Kinds : Type} (result : Except ReadError (Decoded Kinds))
    (P : Reference Kinds → Prop) : Prop :=
  ∃ d r, result = .ok d ∧ d.reference = some r ∧ P r

theorem yields_iff {result : Except ReadError (Decoded Kinds)} {d : Decoded Kinds}
    {r : Reference Kinds} {P : Reference Kinds → Prop} (h : result = .ok d)
    (hr : d.reference = some r) : Yields result P ↔ P r := by
  constructor
  · intro ⟨d', r', hd', hr', hP⟩
    obtain rfl := Except.ok.inj (h.symm.trans hd')
    obtain rfl := Option.some.inj (hr.symm.trans hr')
    exact hP
  · intro hP
    exact ⟨d, r, h, hr, hP⟩

theorem not_yields_error {result : Except ReadError (Decoded Kinds)} {e : ReadError}
    {P : Reference Kinds → Prop} (h : result = .error e) : ¬ Yields result P := by
  intro ⟨d, r, hd, _⟩
  rw [h] at hd
  cases hd

def addReference {Kinds : Type} (r : Except ReadError (Reference Kinds)) :
    Except ReadError (Decoded Kinds) :=
  r.map fun r => { reference := some r }

def samePointer (a b : AtomAndOffset) : Bool :=
  a.atom.map (·.pointer) = b.atom.map (·.pointer)

/-- An addend in the content goes to one of the two sides. -/
def readDifference {Kinds : Type} (rd : Reader 32) (kind : Kinds)
    (srcAddr dstAddr nextRelocValue contentAddr : BitVec 32) :
    Except ReadError (Reference Kinds) :=
  let srcao := findAtomAndOffset rd.fAddrToAtom srcAddr
  let fromao := findAtomAndOffset rd.fAddrToAtom nextRelocValue
  let toao := findAtomAndOffset rd.fAddrToAtom dstAddr
  if dstAddr - nextRelocValue = contentAddr then newReference kind srcao fromao toao
  else if samePointer toao srcao || samePointer fromao srcao then
    newReference kind srcao fromao
      { toao with offset := toao.offset + (contentAddr + nextRelocValue - dstAddr) }
  else
    newReference kind srcao
      { fromao with offset := fromao.offset + (dstAddr - contentAddr - nextRelocValue) } toao

/-- `strncmp(name, start, strlen(start)) == 0` -/
def hasPrefix (start name : String) : Bool := start.toList.isPrefixOf name.toList

def dropPrefix (start name : String) : String := String.ofList (name.toList.drop start.length)

/-- The kind of a call to a dtrace symbol, and what `addDtraceExtraInfos` is given. -/
def dtraceSite {Kinds : Type} (kDtraceProbeSite kDtraceIsEnabledSite : Kinds)
    (targetName : Option String) : Option (Kinds × String) :=
  match targetName with
  | none => none
  | some name =>
    if hasPrefix "___dtrace_probe$" name then
      some (kDtraceProbeSite, dropPrefix "___dtrace_probe$" name)
    else if hasPrefix "___dtrace_isenabled$" name then
      some (kDtraceIsEnabledSite, dropPrefix "___dtrace_isenabled$" name)
    else none

/-- The reference for a call to a dtrace symbol, or else the one that `other` makes. -/
def dtraceOr {Kinds : Type} (at_ : AtomAndOffset) (targetName : Option String)
    (site : Option (Kinds × String)) (other : Except ReadError (Decoded Kinds)) :
    Except ReadError (Decoded Kinds) :=
  match site with
  | some (kind, extra) =>
    (newReferenceByName kind at_ targetName 0).map fun r =>
      { reference := some r, dtraceExtraInfos := some extra }
  | none => other

def isDtraceName (name : Option String) : Bool := (dtraceSite () () name).isSome

section Dtrace
variable {Kinds : Type} {probe enabled : Kinds} {name : Option String}

theorem dtraceSite_none (h : isDtraceName name = false) : dtraceSite probe enabled name = none := by
  unfold isDtraceName dtraceSite at h
  unfold dtraceSite
  cases name with
  | none => rfl
  | some name =>
    simp only at h ⊢
    split
    · rename_i hprobe
      rw [if_pos hprobe] at h
      cases h
    rename_i hprobe
    rw [if_neg hprobe] at h
    split
    · rename_i henabled
      rw [if_pos henabled] at h
      cases h
    · rfl

theorem dtraceSite_some (h : isDtraceName name = true) :
    ∃ kind extra, dtraceSite probe enabled name = some (kind, extra) ∧
      (kind = probe ∨ kind = enabled) := by
  unfold isDtraceName dtraceSite at h
  unfold dtraceSite
  cases name with
  | none => cases h
  | some name =>
    simp only at h ⊢
    split
    · exact ⟨_, _, rfl, Or.inl rfl⟩
    rename_i hprobe
    rw [if_neg hprobe] at h
    split
    · exact ⟨_, _, rfl, Or.inr rfl⟩
    rename_i henabled
    rw [if_neg henabled] at h
    cases h

end Dtrace

section ReadsBack
variable {Kinds : Type} (w : Writer) (rd : Reader 32) (sect : Section 32) (inAtom : Atom)
  (ref : BoundReference Kinds)

/-- The reader's tables are those of the file that was written. -/
structure ReadsBack : Prop where
  sectionAddress : inAtom.address32 = sect.addr + inAtom.getSectionOffset.setWidth 32
  /-- a section is smaller than 2 GB -/
  notScattered : Writer.relocAddress inAtom ref < 0x80000000
  /-- sections of non-lazy pointers have no relocations -/
  hasRelocations : inAtom.fAllNonLazyPointers = false
  fromZero : ∃ a, (0, a) ∈ rd.fAddrToAtom.entries
  keys : ∀ it ∈ rd.fAddrToAtom.entries,
    it.2.address32 = it.1 ∧ it.2.getDefinitionKind ≠ .kAbsoluteSymbol
  namesUnique : rd.NamesUnique
  symbols : w.makesExternalRelocatableReference ref.getTarget = true →
    ∀ num, w.symbolIndex ref.getTarget = .ok num →
      ∃ sym, rd.fSymbols[(num.setWidth 24).toNat]? = some sym ∧ ref.getTarget.getName = some sym.name
  located : w.makesExternalRelocatableReference ref.getTarget = false →
    ref.getTarget.getDefinitionKind ≠ .kAbsoluteSymbol →
      ref.getTarget.sectionIndex ≠ 0 ∧
        ∃ a, (ref.getTarget.address32, a) ∈ rd.fAddrToAtom.entries
  absolute : w.makesExternalRelocatableReference ref.getTarget = false →
    ref.getTarget.getDefinitionKind = .kAbsoluteSymbol →
      ref.getTarget.sectionIndex = 0 ∧
        ∃ a, rd.fAddrToAbsoluteAtom.lookup ref.getTarget.address32 = some a ∧
          a.address32 = ref.getTarget.address32 ∧ a.getDefinitionKind = .kAbsoluteSymbol

def Matches (address : BitVec 32) (a : Atom) : Prop :=
  (a.getDefinitionKind = .kAbsoluteSymbol ↔ ref.getTarget.getDefinitionKind = .kAbsoluteSymbol) ∧
    a.address32 = address

/-- The reference that was read is to the target that was written: to the name of an
external one and otherwise to its address, based at the target if it has an offset. -/
def SameTarget (r : Reference Kinds) : Prop :=
  if w.makesExternalRelocatableReference ref.getTarget then
    r.fToTarget = { offset := ref.fToTargetOffset } ∧ r.fToTargetName = ref.getTarget.getName
  else
    ∃ a offset, r.PointsTo rd a offset ∧
      Matches ref (ref.getTarget.address32 + ref.fToTargetOffset - offset) a ∧
      (ref.fToTargetOffset ≠ 0 → offset = ref.fToTargetOffset)

variable {w rd sect inAtom ref}

theorem getTargetOffset_low : ref.getTargetOffset.setWidth 32 = ref.fToTargetOffset :=
  signExtend_truncate _ (by decide)

theorem relocAddress_eq (hback : ReadsBack w rd sect inAtom ref) :
    sect.addr + Writer.relocAddress inAtom ref =
      (inAtom.getAddress + ref.getFixUpOffset).setWidth 32 := by
  have haddr : inAtom.getAddress.setWidth 32 = _ := hback.sectionAddress
  unfold Writer.relocAddress
  rw [setWidth_add _ _ (by decide), setWidth_add _ _ (by decide), haddr,
    BitVec.add_assoc]

end ReadsBack

end Toolwhip.Ld64.Reloc
