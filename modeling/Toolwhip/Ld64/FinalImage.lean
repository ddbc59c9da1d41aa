import Toolwhip.Lib.ByteOrder
import Toolwhip.Ld64.Relocation

/-! # References in a final linked image

What the architectures share of `Writer<A>::fixUpReferenceFinal`. -/

namespace Toolwhip.Ld64.Reloc
open Lib.LittleEndian Lib.BitFields
set_option autoImplicit false

inductive RelocKind where
  | kRelocNone
  | kRelocInternal
  | kRelocExternal
  deriving DecidableEq, Repr

structure FinalWriter where
  outputKind : OutputKind := .kDynamicExecutable
  nameSpace : NameSpace := .kTwoLevelNameSpace
  keepPrivateExterns : Bool := false
  prebind : Bool := false
  interposable : Option String → Bool := fun _ => false
  fSlideable : Bool := false
  fAllSynthesizedNonLazyPointers : List AtomPtr := []

namespace FinalWriter
variable (w : FinalWriter)

def shouldExport (atom : Atom) : Bool :=
  match atom.getSymbolTableInclusion with
  | .kSymbolTableNotIn => false
  | .kSymbolTableInAndNeverStrip => true
  | .kSymbolTableInAsAbsolute | .kSymbolTableIn =>
    match atom.getScope with
    | .scopeGlobal => true
    | .scopeLinkageUnit => w.outputKind == .kObjectFile && w.keepPrivateExterns
    | .scopeTranslationUnit => false

def canBeIndirected (atom : Atom) : Bool :=
  match atom.getName with
  | none => false
  | some name => !hasPrefix ".objc_class_" name

def relocationNeededInFinalLinkedImage (target : Atom) : RelocKind :=
  let direct : RelocKind := if w.fSlideable then .kRelocInternal else .kRelocNone
  match target.getDefinitionKind with
  | .kTentativeDefinition | .kRegularDefinition =>
    if w.outputKind = .kDynamicExecutable then
      if w.shouldExport target && w.interposable target.getName then .kRelocExternal else direct
    else if w.shouldExport target &&
        (w.nameSpace == .kFlatNameSpace || w.nameSpace == .kForceFlatNameSpace ||
          w.interposable target.getName) && canBeIndirected target then .kRelocExternal
    else direct
  | .kWeakDefinition => if w.shouldExport target then .kRelocExternal else direct
  | .kExternalDefinition | .kExternalWeakDefinition => .kRelocExternal
  | .kAbsoluteSymbol => .kRelocNone

end FinalWriter

def isDylibSymbol (kind : DefinitionKind) : Bool :=
  kind = .kExternalDefinition || kind = .kExternalWeakDefinition

def Atom.finalAddress (a : Atom) : BitVec 64 :=
  if a.getDefinitionKind = .kAbsoluteSymbol then a.getSectionOffset else a.getAddress

def BoundReference.fixUp {Kinds : Type} (ref : BoundReference Kinds) : Int :=
  ref.getFixUpOffset.toNat

def setBytes (buffer : Memory) : Int → List (BitVec 8) → Memory
  | _, [] => buffer
  | addr, b :: bytes => Function.update (setBytes buffer (addr + 1) bytes) addr b

/-- A number that a signed field of `n` bytes can hold. -/
def FitsField (n : Nat) (d : BitVec 64) : Prop :=
  -2 ^ (8 * n - 1) ≤ d.toInt ∧ d.toInt < 2 ^ (8 * n - 1)

theorem load_store_signExtend {buffer : Memory} {addr : Int} {n : Nat} {d : BitVec 64}
    (hpos : 0 < n) (hn : n ≤ 8) (h : FitsField n d) :
    (load (store buffer addr n (d.setWidth (8 * n))) addr n).signExtend 64 = d := by
  obtain ⟨k, hk⟩ : ∃ k, 8 * n = k + 1 := ⟨8 * n - 1, by omega⟩
  unfold FitsField at h
  rw [load_store]
  rw [hk, Nat.add_sub_cancel] at h
  rw [hk, signExtend_setWidth (by omega) h.1 h.2]
  exact BitVec.signExtend_eq d

theorem fitsField_of_range {n : Nat} {limit : Int} {d : BitVec 64}
    (hlimit : limit < 2 ^ (8 * n - 1)) (h : outOfRange d limit = false) : FitsField n d := by
  have hd := outOfRange_false h
  unfold FitsField
  omega

end Toolwhip.Ld64.Reloc
