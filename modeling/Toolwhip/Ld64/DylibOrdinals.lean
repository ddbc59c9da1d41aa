import Toolwhip.Ld64.ObjectFile
import Toolwhip.Lib.SortContract

/-! # Library ordinals

The writer numbers the dylibs when it is constructed and renumbers them in
`optimizeDylibReferences`, after symbols have been resolved. A `std::map` is a
function with the sorted list of its keys; a load command is known by the reader
it was made for. -/

set_option autoImplicit false

namespace Toolwhip.Ld64
open Function

def EXECUTABLE_ORDINAL : Nat := 0xff
def DYNAMIC_LOOKUP_ORDINAL : Nat := 0xfe
def MAX_LIBRARY_ORDINAL : Nat := 0xfd

structure DynamicLibraryOptions where
  fReExport : Bool := false
  fBundleLoader : Bool := false
  fLazyLoad : Bool := false

structure DyLibUsed where
  reader : ReaderPtr
  options : DynamicLibraryOptions := {}

structure DylibReader where
  getInstallPath : Option String
  parentUmbrella : Option String := none
  providedExportAtom : Bool := false
  implicitlyLinked : Bool := false
  isLazyLoadedDylib : Bool := false

/-- The writer's parameters, for an output kind with dylib load commands. Readers
without an install path are only kept as bundle loaders, and a reader is lazily
loaded by the options it was opened with. -/
structure DylibWriter where
  dynamicLibraries : List DyLibUsed
  library : ReaderPtr → DylibReader
  self : ReaderPtr
  outputKind : OutputKind
  nameSpace : NameSpace
  deadStripDylibs : Bool
  installPath : Option String
  macosxVersionMinBefore10_5 : Bool
  fgCurrentOrdinal : Nat
  distinct : (dynamicLibraries.map DyLibUsed.reader).Nodup
  self_not_mem : self ∉ dynamicLibraries.map DyLibUsed.reader
  has_path : ∀ info ∈ dynamicLibraries, info.options.fBundleLoader = false →
    (library info.reader).getInstallPath.isSome
  lazy_eq : ∀ info ∈ dynamicLibraries,
    info.options.fLazyLoad = (library info.reader).isLazyLoadedDylib

/-- `number` is what `fgCurrentOrdinal` was. -/
structure DylibLoadCommandsAtom where
  reader : ReaderPtr
  fLazyLoad : Bool
  number : Nat
  deriving DecidableEq

def DylibLoadCommandsAtom.getOrdinal (c : DylibLoadCommandsAtom) : Nat :=
  c.number + if c.fLazyLoad then 256 else 0

structure LibraryTables where
  fLibraryToOrdinal : ReaderPtr → Option Nat := fun _ => none
  fLibraryToLoadCommand : ReaderPtr → Option ReaderPtr := fun _ => none
  fLibraryAliases : ReaderPtr → Option ReaderPtr := fun _ => none
  dylibCommands : List DylibLoadCommandsAtom := []
  ordinal : Nat := 1
  fgCurrentOrdinal : Nat

def leafName (path : String) : Option String :=
  if '/' ∈ path.toList then
    some (String.ofList (path.toList.reverse.takeWhile (· ≠ '/')).reverse)
  else none

namespace DylibWriter
variable (w : DylibWriter)

def isSubFramework (info : DyLibUsed) : Bool :=
  match (w.library info.reader).parentUmbrella, w.installPath.bind leafName with
  | some childInUmbrella, some myLeaf => childInUmbrella = myLeaf
  | _, _ => false

/-- A `LC_SUB_UMBRELLA` or `LC_SUB_LIBRARY` command goes with the dylib's. -/
def needsSubCommand (info : DyLibUsed) : Bool :=
  info.options.fReExport && w.macosxVersionMinBefore10_5 &&
    w.outputKind = .kDynamicLibrary && !w.isSubFramework info

def samePath (info seenDylibInfo : DyLibUsed) : Bool :=
  !seenDylibInfo.options.fBundleLoader &&
    (w.library seenDylibInfo.reader).getInstallPath = (w.library info.reader).getInstallPath

/-- One round of the constructor's loop over `dynamicLibraries`. -/
def addLibrary (seen : List DyLibUsed) (t : LibraryTables) (dylibInfo : DyLibUsed) :
    LibraryTables :=
  if dylibInfo.options.fBundleLoader then
    { t with
      fLibraryToOrdinal := update t.fLibraryToOrdinal dylibInfo.reader (some EXECUTABLE_ORDINAL) }
  else match seen.find? (w.samePath dylibInfo) with
  | some seenDylibInfo =>
    { t with
      fLibraryToOrdinal := update t.fLibraryToOrdinal dylibInfo.reader
        (t.fLibraryToOrdinal seenDylibInfo.reader)
      fLibraryToLoadCommand := update t.fLibraryToLoadCommand dylibInfo.reader
        (t.fLibraryToLoadCommand seenDylibInfo.reader)
      fLibraryAliases := update t.fLibraryAliases dylibInfo.reader (some seenDylibInfo.reader) }
  | none =>
    { t with
      fLibraryToOrdinal := update t.fLibraryToOrdinal dylibInfo.reader (some t.ordinal)
      fLibraryToLoadCommand := update t.fLibraryToLoadCommand dylibInfo.reader
        (some dylibInfo.reader)
      dylibCommands := t.dylibCommands ++
        [⟨dylibInfo.reader, dylibInfo.options.fLazyLoad, t.fgCurrentOrdinal⟩]
      ordinal := t.ordinal + 1
      fgCurrentOrdinal := t.fgCurrentOrdinal + 1 +
        if w.needsSubCommand dylibInfo then 1 else 0 }

def addLibraries : List DyLibUsed → LibraryTables → List DyLibUsed → LibraryTables
  | _, t, [] => t
  | seen, t, dylibInfo :: rest =>
    addLibraries (seen ++ [dylibInfo]) (w.addLibrary seen t dylibInfo) rest

def tables : LibraryTables :=
  w.addLibraries [] { fgCurrentOrdinal := w.fgCurrentOrdinal } w.dynamicLibraries

/-- The keys of `fLibraryToOrdinal`, in the order of the map. -/
def libraryOrder : List ReaderPtr :=
  (w.dynamicLibraries.map DyLibUsed.reader).insertionSort (· ≤ ·)

def canBeOptimizedAway (reader : ReaderPtr) : Bool :=
  !(w.library reader).providedExportAtom &&
    ((w.library reader).implicitlyLinked || w.deadStripDylibs)

structure UnusedDylibs where
  fLibraryToOrdinal : ReaderPtr → Option Nat
  fOptimizedAway : ReaderPtr → Bool := fun _ => false
  ordinalToReader : Nat → Option ReaderPtr := fun _ => none
  readerAliases : ReaderPtr → Option ReaderPtr := fun _ => none

def visitLibrary (t : LibraryTables) (s : UnusedDylibs) (reader : ReaderPtr) : UnusedDylibs :=
  match t.fLibraryAliases reader with
  | some aliasOf => { s with readerAliases := update s.readerAliases reader (some aliasOf) }
  | none =>
    if w.canBeOptimizedAway reader then
      { s with
        fLibraryToOrdinal := update s.fLibraryToOrdinal reader (some 0xFFFFFFFF)
        fOptimizedAway :=
          match t.fLibraryToLoadCommand reader with
          | some command => update s.fOptimizedAway command true
          | none => s.fOptimizedAway }
    else
      let ordinal := (s.fLibraryToOrdinal reader).getD 0
      match s.ordinalToReader ordinal with
      | none => { s with ordinalToReader := update s.ordinalToReader ordinal (some reader) }
      | some first => { s with readerAliases := update s.readerAliases reader (some first) }

def renumber (lazyLoaded : Bool) (s : (ReaderPtr → Option Nat) × Nat) (reader : ReaderPtr) :
    (ReaderPtr → Option Nat) × Nat :=
  if (w.library reader).isLazyLoadedDylib = lazyLoaded then
    (update s.1 reader (some (s.2 + 1)), s.2 + 1)
  else s

def addAlias (readerAliases : ReaderPtr → Option ReaderPtr) (ordinals : ReaderPtr → Option Nat)
    (reader : ReaderPtr) : ReaderPtr → Option Nat :=
  match readerAliases reader with
  | some aliasOf => update ordinals reader (some ((ordinals aliasOf).getD 0))
  | none => ordinals

structure OptimizedDylibs where
  fLibraryToOrdinal : ReaderPtr → Option Nat
  fOptimizedAway : ReaderPtr → Bool

/-- The renumbering loops walk `ordinalToReader` in ordinal order and look only at
ordinals up to the number of libraries. -/
def optimizeDylibReferences : Except String OptimizedDylibs :=
  let s := w.libraryOrder.foldl (w.visitLibrary w.tables)
    { fLibraryToOrdinal := w.tables.fLibraryToOrdinal }
  let inOrder := (List.range (w.libraryOrder.length + 1)).filterMap s.ordinalToReader
  let renumbered := inOrder.foldl (w.renumber true)
    (inOrder.foldl (w.renumber false) (s.fLibraryToOrdinal, 0))
  if MAX_LIBRARY_ORDINAL ≤ renumbered.2 ∧ w.nameSpace = .kTwoLevelNameSpace then
    .error ("two level namespace mach-o files can link with at most " ++
      toString MAX_LIBRARY_ORDINAL ++ " dylibs, this link would use " ++
      toString renumbered.2 ++ " dylibs")
  else .ok
    { fLibraryToOrdinal := w.libraryOrder.foldl (addAlias s.readerAliases) renumbered.1
      fOptimizedAway := s.fOptimizedAway }

/-- The result is a `uint8_t`. -/
def ordinalForLibrary (s : OptimizedDylibs) (lib : ReaderPtr) : Except String Nat :=
  if w.nameSpace ≠ .kTwoLevelNameSpace then .ok 0
  else if lib = w.self then .ok DYNAMIC_LOOKUP_ORDINAL
  else match s.fLibraryToOrdinal lib with
  | some ordinal => .ok (ordinal % 2 ^ 8)
  | none => .error "can't find ordinal for imported symbol"

def commandBefore (a b : DylibLoadCommandsAtom) : Bool := a.getOrdinal < b.getOrdinal

def retainedCommands (s : OptimizedDylibs) : List DylibLoadCommandsAtom :=
  w.tables.dylibCommands.filter fun c => !s.fOptimizedAway c.reader

end DylibWriter
end Toolwhip.Ld64

/-! ## Numbering the dylibs

What the constructor's loop leaves in its tables: one command and one ordinal for
each install name, aliases to the first reader that has it. -/

namespace Toolwhip.Ld64.DylibWriter
open Function List

variable {w : DylibWriter}

structure Numbered (w : DylibWriter) (seen : List DyLibUsed) (t : LibraryTables) : Prop where
  ordinal_eq : t.ordinal = t.dylibCommands.length + 1
  length_le : t.dylibCommands.length ≤ seen.length
  unknown : ∀ r, r ∉ seen.map DyLibUsed.reader →
    t.fLibraryToLoadCommand r = none ∧ t.fLibraryAliases r = none
  bundle : ∀ info ∈ seen, info.options.fBundleLoader = true →
    t.fLibraryToOrdinal info.reader = some EXECUTABLE_ORDINAL ∧
      t.fLibraryToLoadCommand info.reader = none ∧ t.fLibraryAliases info.reader = none
  command : ∀ i c, t.dylibCommands[i]? = some c →
    t.fLibraryToOrdinal c.reader = some (i + 1) ∧
      t.fLibraryToLoadCommand c.reader = some c.reader ∧ t.fLibraryAliases c.reader = none ∧
        ∃ info ∈ seen, info.reader = c.reader ∧ info.options.fBundleLoader = false ∧
          info.options.fLazyLoad = c.fLazyLoad
  first : ∀ info ∈ seen, info.options.fBundleLoader = false →
    ∃ s, ∃ c ∈ t.dylibCommands, seen.find? (w.samePath info) = some s ∧ c.reader = s.reader ∧
      t.fLibraryToLoadCommand info.reader = some s.reader ∧
        (s.reader = info.reader ∨ t.fLibraryAliases info.reader = some s.reader)
  paths : t.dylibCommands.Pairwise fun a b =>
    (w.library a.reader).getInstallPath ≠ (w.library b.reader).getInstallPath
  numbers : t.dylibCommands.Pairwise fun a b => a.number < b.number
  number_lt : ∀ c ∈ t.dylibCommands, c.number < t.fgCurrentOrdinal

theorem numbered_nil (n : Nat) : Numbered w [] { fgCurrentOrdinal := n } where
  ordinal_eq := rfl
  length_le := Nat.le_refl 0
  unknown := fun _ _ => ⟨rfl, rfl⟩
  bundle := by
    intro info h
    cases h
  command := by
    intro i c h
    cases h
  first := by
    intro info h
    cases h
  paths := List.Pairwise.nil
  numbers := List.Pairwise.nil
  number_lt := by
    intro c h
    cases h

theorem samePath_iff {info other : DyLibUsed} :
    w.samePath info other = true ↔ other.options.fBundleLoader = false ∧
      (w.library other.reader).getInstallPath = (w.library info.reader).getInstallPath := by
  unfold samePath
  rw [Bool.and_eq_true, Bool.not_eq_true', decide_eq_true_iff]

section Step

variable {seen : List DyLibUsed} {t : LibraryTables} {info : DyLibUsed}

theorem Numbered.command_mem (h : Numbered w seen t) {c : DylibLoadCommandsAtom}
    (hc : c ∈ t.dylibCommands) : ∃ info ∈ seen, info.reader = c.reader ∧
      info.options.fBundleLoader = false ∧ info.options.fLazyLoad = c.fLazyLoad := by
  obtain ⟨i, hi⟩ := mem_iff_getElem?.mp hc
  exact (h.command i c hi).2.2.2

theorem reader_ne_of_mem (hfresh : info.reader ∉ seen.map DyLibUsed.reader) {other : DyLibUsed}
    (ho : other ∈ seen) : other.reader ≠ info.reader := by
  intro heq
  exact hfresh (List.mem_map.mpr ⟨other, ho, heq⟩)

theorem Numbered.command_ne (h : Numbered w seen t)
    (hfresh : info.reader ∉ seen.map DyLibUsed.reader) {c : DylibLoadCommandsAtom}
    (hc : c ∈ t.dylibCommands) : c.reader ≠ info.reader := by
  obtain ⟨other, ho, heq, -⟩ := h.command_mem hc
  rw [← heq]
  exact reader_ne_of_mem hfresh ho

theorem find?_concat_of_some {p : DyLibUsed → Bool} {s : DyLibUsed}
    (h : seen.find? p = some s) (info : DyLibUsed) : (seen ++ [info]).find? p = some s := by
  rw [find?_append, h, Option.some_or]

theorem not_mem_of_concat {r : ReaderPtr} (h : r ∉ (seen ++ [info]).map DyLibUsed.reader) :
    r ∉ seen.map DyLibUsed.reader ∧ r ≠ info.reader := by
  rw [map_append, mem_append, not_or] at h
  exact ⟨h.1, fun heq => h.2 (heq ▸ mem_cons_self)⟩

section
variable (h : Numbered w seen t) (hfresh : info.reader ∉ seen.map DyLibUsed.reader)
include h hfresh

theorem Numbered.addBundle (hb : info.options.fBundleLoader = true) :
    Numbered w (seen ++ [info]) (w.addLibrary seen t info) := by
  rw [addLibrary, if_pos hb]
  constructor
  · exact h.ordinal_eq
  · rw [length_append]
    exact Nat.le_succ_of_le h.length_le
  · intro r hr
    exact h.unknown r (not_mem_of_concat hr).1
  · intro other ho hbundle
    rcases List.mem_append.mp ho with ho | ho
    · simp only [update_of_ne (reader_ne_of_mem hfresh ho)]
      exact h.bundle other ho hbundle
    · rw [List.mem_singleton.mp ho]
      exact ⟨update_self .., h.unknown info.reader hfresh⟩
  · intro i c hi
    have hne := h.command_ne hfresh (mem_of_getElem? hi)
    obtain ⟨hord, hcmd, halias, other, ho, hrest⟩ := h.command i c hi
    simp only [update_of_ne hne]
    exact ⟨hord, hcmd, halias, other, mem_append_left _ ho, hrest⟩
  · intro other ho hbundle
    rcases List.mem_append.mp ho with ho | ho
    · obtain ⟨s, c, hc, hfind, hrest⟩ := h.first other ho hbundle
      exact ⟨s, c, hc, find?_concat_of_some hfind info, hrest⟩
    · rw [List.mem_singleton.mp ho, hb] at hbundle
      cases hbundle
  · exact h.paths
  · exact h.numbers
  · exact h.number_lt

theorem Numbered.addKnown (hb : info.options.fBundleLoader = false) {s : DyLibUsed}
    (hfind : seen.find? (w.samePath info) = some s) :
    Numbered w (seen ++ [info]) (w.addLibrary seen t info) := by
  have hs : s ∈ seen := mem_of_find?_eq_some hfind
  obtain ⟨hsb, hpath⟩ := samePath_iff.mp (find?_some hfind)
  rw [addLibrary, if_neg (by rw [hb]; exact Bool.false_ne_true), hfind]
  -- The first reader of a path is its own first reader.
  have hsame : w.samePath s = w.samePath info := by
    unfold samePath
    rw [hpath]
  obtain ⟨s', c, hc, hfind', hcs, hcmd, -⟩ := h.first s hs hsb
  rw [hsame, hfind] at hfind'
  obtain rfl := Option.some.inj hfind'
  constructor
  · exact h.ordinal_eq
  · rw [length_append]
    exact Nat.le_succ_of_le h.length_le
  · intro r hr
    obtain ⟨hseen, hne⟩ := not_mem_of_concat hr
    simp only [update_of_ne hne]
    exact h.unknown r hseen
  · intro other ho hbundle
    rcases List.mem_append.mp ho with ho | ho
    · simp only [update_of_ne (reader_ne_of_mem hfresh ho)]
      exact h.bundle other ho hbundle
    · rw [List.mem_singleton.mp ho, hb] at hbundle
      cases hbundle
  · intro i d hi
    have hne := h.command_ne hfresh (mem_of_getElem? hi)
    obtain ⟨hord, hcmd, halias, other, ho, hrest⟩ := h.command i d hi
    simp only [update_of_ne hne]
    exact ⟨hord, hcmd, halias, other, mem_append_left _ ho, hrest⟩
  · intro other ho hbundle
    rcases List.mem_append.mp ho with ho | ho
    · obtain ⟨s', d, hd, hfind', hrest⟩ := h.first other ho hbundle
      simp only [update_of_ne (reader_ne_of_mem hfresh ho)]
      exact ⟨s', d, hd, find?_concat_of_some hfind' info, hrest⟩
    rw [List.mem_singleton.mp ho]
    refine ⟨s, c, hc, find?_concat_of_some hfind info, hcs, ?_, Or.inr (update_self ..)⟩
    simp only [update_self]
    exact hcmd
  · exact h.paths
  · exact h.numbers
  · exact h.number_lt

theorem Numbered.addNew (hb : info.options.fBundleLoader = false)
    (hfind : seen.find? (w.samePath info) = none) :
    Numbered w (seen ++ [info]) (w.addLibrary seen t info) := by
  rw [addLibrary, if_neg (by rw [hb]; exact Bool.false_ne_true), hfind]
  constructor
  · simp only [length_append, length_singleton]
    rw [h.ordinal_eq]
  · simp only [length_append, length_singleton]
    exact Nat.succ_le_succ h.length_le
  · intro r hr
    obtain ⟨hseen, hne⟩ := not_mem_of_concat hr
    simp only [update_of_ne hne]
    exact h.unknown r hseen
  · intro other ho hbundle
    rcases List.mem_append.mp ho with ho | ho
    · simp only [update_of_ne (reader_ne_of_mem hfresh ho)]
      exact h.bundle other ho hbundle
    · rw [List.mem_singleton.mp ho, hb] at hbundle
      cases hbundle
  · intro i c hi
    simp only [getElem?_append] at hi
    split at hi
    · have hne := h.command_ne hfresh (mem_of_getElem? hi)
      obtain ⟨hord, hcmd, halias, other, ho, hrest⟩ := h.command i c hi
      simp only [update_of_ne hne]
      exact ⟨hord, hcmd, halias, other, mem_append_left _ ho, hrest⟩
    have hi0 : i - t.dylibCommands.length = 0 := by
      have := (List.getElem?_eq_some_iff.mp hi).1
      rw [length_singleton] at this
      omega
    rw [hi0] at hi
    obtain rfl := Option.some.inj hi
    simp only [update_self]
    refine ⟨?_, trivial, (h.unknown _ hfresh).2, info, mem_append_right _ mem_cons_self,
      rfl, hb, rfl⟩
    rw [h.ordinal_eq]
    congr 1
    omega
  · intro other ho hbundle
    rcases List.mem_append.mp ho with ho | ho
    · obtain ⟨s', d, hd, hfind', hrest⟩ := h.first other ho hbundle
      simp only [update_of_ne (reader_ne_of_mem hfresh ho)]
      exact ⟨s', d, mem_append_left _ hd, find?_concat_of_some hfind' info, hrest⟩
    rw [List.mem_singleton.mp ho]
    refine ⟨info, _, mem_append_right _ mem_cons_self, ?_, rfl, update_self ..,
      Or.inl rfl⟩
    have hself : w.samePath info info = true := samePath_iff.mpr ⟨hb, rfl⟩
    rw [find?_append, hfind, Option.none_or, find?_cons_of_pos hself]
  · rw [pairwise_append]
    refine ⟨h.paths, pairwise_singleton _ _, ?_⟩
    intro c hc d hd
    rw [List.mem_singleton.mp hd]
    obtain ⟨other, ho, heq, hbundle, -⟩ := h.command_mem hc
    intro hpath
    rw [← heq] at hpath
    exact List.find?_eq_none.mp hfind other ho (samePath_iff.mpr ⟨hbundle, hpath⟩)
  · rw [pairwise_append]
    refine ⟨h.numbers, pairwise_singleton _ _, ?_⟩
    intro c hc d hd
    rw [List.mem_singleton.mp hd]
    exact h.number_lt c hc
  · intro c hc
    simp only
    rcases List.mem_append.mp hc with hc | hc
    · have := h.number_lt c hc
      omega
    rw [List.mem_singleton.mp hc]
    simp only
    omega

theorem Numbered.add : Numbered w (seen ++ [info]) (w.addLibrary seen t info) := by
  cases hb : info.options.fBundleLoader with
  | true => exact h.addBundle hfresh hb
  | false =>
    cases hfind : seen.find? (w.samePath info) with
    | none => exact h.addNew hfresh hb hfind
    | some s => exact h.addKnown hfresh hb hfind

end

end Step

theorem addLibraries_numbered {rest seen : List DyLibUsed} {t : LibraryTables}
    (h : Numbered w seen t) (hd : ((seen ++ rest).map DyLibUsed.reader).Nodup) :
    Numbered w (seen ++ rest) (w.addLibraries seen t rest) := by
  induction rest generalizing seen t with
  | nil =>
    rw [append_nil]
    exact h
  | cons info rest ih =>
    have hfresh : info.reader ∉ seen.map DyLibUsed.reader := by
      rw [map_append, nodup_append] at hd
      intro hmem
      exact hd.2.2 _ hmem info.reader mem_cons_self rfl
    have hsplit : seen ++ info :: rest = (seen ++ [info]) ++ rest := by
      rw [append_assoc, singleton_append]
    rw [hsplit] at hd ⊢
    exact ih (h.add hfresh) hd

theorem tables_numbered (w : DylibWriter) : Numbered w w.dynamicLibraries w.tables := by
  have h := @addLibraries_numbered w w.dynamicLibraries [] _ (numbered_nil w.fgCurrentOrdinal)
  exact h w.distinct

/-! Consequences for the tables of a constructed writer. -/

theorem command_inj {i j : Nat} {c d : DylibLoadCommandsAtom}
    (hc : w.tables.dylibCommands[i]? = some c) (hd : w.tables.dylibCommands[j]? = some d)
    (h : c.reader = d.reader) : i = j ∧ c = d := by
  have hci := (w.tables_numbered.command i c hc).1
  have hdj := (w.tables_numbered.command j d hd).1
  rw [h, hdj] at hci
  have hij : i = j := by
    have := Option.some.inj hci
    omega
  subst hij
  rw [hc] at hd
  exact ⟨rfl, Option.some.inj hd⟩

theorem commands_nodup : w.tables.dylibCommands.Nodup :=
  w.tables_numbered.numbers.imp fun hlt heq => by
    rw [heq] at hlt
    exact Nat.lt_irrefl _ hlt

theorem lazy_command {c : DylibLoadCommandsAtom} (hc : c ∈ w.tables.dylibCommands) :
    (w.library c.reader).isLazyLoadedDylib = c.fLazyLoad := by
  obtain ⟨info, hinfo, hreader, -, hlazy⟩ := w.tables_numbered.command_mem hc
  rw [← hlazy, ← hreader, w.lazy_eq info hinfo]

theorem exists_command {info : DyLibUsed} (hinfo : info ∈ w.dynamicLibraries)
    (hb : info.options.fBundleLoader = false) : ∃ c ∈ w.tables.dylibCommands,
      w.tables.fLibraryToLoadCommand info.reader = some c.reader ∧
        (w.library c.reader).getInstallPath = (w.library info.reader).getInstallPath ∧
          (c.reader = info.reader ∨ w.tables.fLibraryAliases info.reader = some c.reader) := by
  obtain ⟨s, c, hc, hfind, hcs, hcmd, halias⟩ := w.tables_numbered.first info hinfo hb
  obtain ⟨-, hpath⟩ := samePath_iff.mp (find?_some hfind)
  rw [← hcs] at hcmd hpath halias
  exact ⟨c, hc, hcmd, hpath, halias⟩

theorem bundle_or_command {r : ReaderPtr} (hr : r ∈ w.dynamicLibraries.map DyLibUsed.reader)
    (halias : w.tables.fLibraryAliases r = none) :
    (∃ info ∈ w.dynamicLibraries, info.reader = r ∧ info.options.fBundleLoader = true) ∨
      ∃ c ∈ w.tables.dylibCommands, c.reader = r := by
  obtain ⟨info, hinfo, rfl⟩ := List.mem_map.mp hr
  cases hb : info.options.fBundleLoader with
  | true => exact Or.inl ⟨info, hinfo, rfl, hb⟩
  | false =>
    obtain ⟨c, hc, -, -, hor⟩ := exists_command hinfo hb
    rcases hor with heq | hal
    · exact Or.inr ⟨c, hc, heq⟩
    rw [halias] at hal
    cases hal

end Toolwhip.Ld64.DylibWriter
