import Toolwhip.Distcc.ArgRewrite

/-! # Stripping the arguments

`dcc_strip_local_args` of strip.c, and what the scan on the server makes of the command
line that is left. -/

namespace Toolwhip.Distcc
open Lib.CNumber List
set_option autoImplicit false

def optionsWithWord : List Arg :=
  ["-D", "-I", "-F", "-U", "-L", "-l", "-MF", "-MT", "-MQ", "-include", "-imacros", "-iprefix",
    "-iwithprefix", "-isystem", "-iquote", "-iframework", "-iwithprefixbefore", "-idirafter",
    "-isysroot", "--sysroot"].map ascii

def strippedPrefixes : List Arg :=
  ["-Wp,", "-Wl,", "-D", "-U", "-I", "-F", "-l", "-L", "-MF", "-MT", "-MQ", "-iframework",
    "-iquote", "--sysroot"].map ascii

def cppOnly : List Arg :=
  ["-undef", "-nostdinc", "-nostdinc++", "-MD", "-MMD", "-MG", "-MP"].map ascii

def takesWord (a : Arg) : Bool := optionsWithWord.contains a

def leftOut (a : Arg) : Bool :=
  strippedPrefixes.any (str_startswith · a) || cppOnly.contains a

/-- The words that are copied; `skip` is whether the next word is the argument of an
option. -/
def strip (skip : Bool) (l : List Arg) : List Arg :=
  match l with
  | [] => []
  | a :: rest =>
    if skip then strip false rest
    else if takesWord a then strip true rest
    else if leftOut a then strip false rest
    else a :: strip false rest

def dcc_strip_local_args (argv : List Arg) : List Arg := strip false argv

section Clean
variable (remote : RemoteAssemble)

/-- What an option of strip.c takes with it means nothing to the scan, and what the scan
takes for the output is not left out. -/
def stripsCleanly (skip : Bool) (l : List Arg) : Bool :=
  match l with
  | [] => true
  | a :: rest =>
    if skip then kind remote a = .plain && stripsCleanly false rest
    else
      match kind remote a with
      | .withArgument | .opt_x =>
        match rest with
        | [] => true
        | _ :: rest => stripsCleanly false rest
      | .opt_o =>
        match rest with
        | [] => true
        | x :: rest => !takesWord x && !leftOut x && stripsCleanly false rest
      | _ => stripsCleanly (takesWord a) rest

/-- The words that the scan does something with, and their arguments. -/
def lookedAt (l : List Arg) : List Arg :=
  match l with
  | [] => []
  | a :: rest =>
    match kind remote a with
    | .plain => lookedAt rest
    | .withArgument =>
      match rest with
      | [] => []
      | _ :: rest => lookedAt rest
    | .opt_x | .opt_o =>
      match rest with
      | [] => [a]
      | x :: rest => a :: x :: lookedAt rest
    | _ => a :: lookedAt rest

end Clean

section Words
variable (remote : RemoteAssemble) {a : Arg}
variable {rest : List Arg}

theorem kind_takesWord (h : takesWord a = true) :
    kind remote a = .plain ∨ kind remote a = .withArgument := by
  have hall : ∀ remote, optionsWithWord.all (fun a =>
      kind remote a = .plain || kind remote a = .withArgument) = true := by
    intro remote
    cases remote <;> decide
  have := List.all_eq_true.mp (hall remote) a (List.contains_iff_mem.mp h)
  simpa using this

theorem kind_leftOut (h : leftOut a = true) :
    kind remote a = .plain ∨ kind remote a = .withArgument := by
  unfold leftOut at h
  rw [Bool.or_eq_true] at h
  rcases h with h | h
  · obtain ⟨head, hmem, hstarts⟩ := List.any_eq_true.mp h
    obtain ⟨t, rfl⟩ := List.isPrefixOf_iff_prefix.mp hstarts
    simp only [strippedPrefixes, map_cons, map_nil, mem_cons, not_mem_nil,
      or_false] at hmem
    rcases hmem with rfl | rfl | rfl | rfl | rfl | rfl | rfl | rfl | rfl | rfl | rfl | rfl |
      rfl | rfl
    -- only -MF, -MT and -MQ alone are more than plain
    all_goals first
      | exact Or.inl (by unfold kind; rfl)
      | cases t with
        | nil => exact Or.inr (by unfold kind; rfl)
        | cons c t => exact Or.inl (by unfold kind; rfl)
  · have hall : ∀ remote, cppOnly.all (fun a => kind remote a = .plain) = true := by
      intro remote
      cases remote <;> decide
    have := List.all_eq_true.mp (hall remote) a (List.contains_iff_mem.mp h)
    exact Or.inl (of_decide_eq_true this)

variable {remote}

theorem takesWord_of_withArgument (h : kind remote a = .withArgument) : takesWord a = true := by
  by_cases hdash : a.head? = some 45
  · by_cases hname : a = ascii "-MF" ∨ a = ascii "-MT" ∨ a = ascii "-MQ"
    · rcases hname with rfl | rfl | rfl <;> decide
    have hne : kind remote a ≠ .withArgument := by
      unfold kind
      rw [if_pos hdash, if_neg hname]
      repeat' apply of_ite (P := fun k => k ≠ .withArgument)
      all_goals decide
    exact absurd h hne
  · rcases kind_no_dash_ne remote hdash with hkind | hkind | hkind <;>
      rw [hkind] at h <;> cases h

theorem kept (h : kind remote a ≠ .plain) (h' : kind remote a ≠ .withArgument) :
    takesWord a = false ∧ leftOut a = false := by
  constructor
  · rw [← Bool.not_eq_true]
    intro htakes
    rcases kind_takesWord remote htakes with hkind | hkind
    · exact h hkind
    · exact h' hkind
  · rw [← Bool.not_eq_true]
    intro hleft
    rcases kind_leftOut remote hleft with hkind | hkind
    · exact h hkind
    · exact h' hkind

theorem language_kept {ext : Arg} (h : dcc_optx_ext_lookup a = some ext) :
    takesWord a = false ∧ leftOut a = false := by
  unfold dcc_optx_ext_lookup at h
  split_ifs at h with h₁ h₂ h₃ h₄
  · rcases h₁ with rfl | rfl <;> decide
  · rcases h₂ with rfl | rfl <;> decide
  · rcases h₃ with rfl | rfl <;> decide
  · rcases h₄ with rfl | rfl <;> decide

theorem noDash_kept (h : a.head? ≠ some 45) : takesWord a = false ∧ leftOut a = false := by
  have hwords : optionsWithWord.all (fun a => a.head? = some 45) = true := by decide
  have hprefixes : strippedPrefixes.all (fun a => a.head? = some 45) = true := by decide
  have hcpp : cppOnly.all (fun a => a.head? = some 45) = true := by decide
  constructor
  · rw [← Bool.not_eq_true]
    intro htakes
    exact h (of_decide_eq_true (List.all_eq_true.mp hwords a (List.contains_iff_mem.mp htakes)))
  · rw [← Bool.not_eq_true]
    intro hleft
    rcases (Bool.or_eq_true _ _).mp hleft with hleft | hleft
    · obtain ⟨head, hmem, hstarts⟩ := List.any_eq_true.mp hleft
      obtain ⟨t, rfl⟩ := List.isPrefixOf_iff_prefix.mp hstarts
      have hhead : head.head? = some 45 :=
        of_decide_eq_true (List.all_eq_true.mp hprefixes head hmem)
      apply h
      rw [head?_append, hhead]
      rfl
    · exact h (of_decide_eq_true (List.all_eq_true.mp hcpp a (List.contains_iff_mem.mp hleft)))

theorem strip_kept (h : takesWord a = false ∧ leftOut a = false) :
    strip false (a :: rest) = a :: strip false rest := by
  rw [strip, if_neg (by simp), if_neg (by simp [h.1]), if_neg (by simp [h.2])]

theorem strip_taken (h : takesWord a = true) : strip false (a :: rest) = strip true rest := by
  rw [strip, if_neg (by simp), if_pos h]

theorem strip_skip (rest : List Arg) : strip true (a :: rest) = strip false rest := by
  rw [strip, if_pos rfl]

end Words

section Runs
variable {A T : List Arg} {seen seen₁ seenT : Seen} {i j : Nat} {k : Kind} {next : Option Arg}
variable {a : Arg} {done doneT : List Arg} {seen₂ : Seen}

def Place.view (argv : List Arg) : Place → Bool × Option Arg
  | .element i => (false, argv[i]?)
  | .suffix i => (true, argv[i]?)

/-- The same words have been found in two vectors. -/
structure Corresponds (A T : List Arg) (seen seenT : Seen) : Prop where
  opt_c : seen.opt_c = seenT.opt_c
  opt_s : seen.opt_s = seenT.opt_s
  optx_ext : seen.optx_ext = seenT.optx_ext
  input : seen.input.map (A[·]?) = seenT.input.map (T[·]?)
  output : seen.output.map (Place.view A) = seenT.output.map (Place.view T)

theorem Corresponds.output_none (h : Corresponds A T seen seenT) (hnone : seen.output = none) :
    seenT.output = none := by
  have := h.output
  rw [hnone] at this
  simpa using this.symm

theorem Corresponds.input_none (h : Corresponds A T seen seenT) (hnone : seen.input = none) :
    seenT.input = none := by
  have := h.input
  rw [hnone] at this
  simpa using this.symm

theorem Corresponds.lookAt (h : Corresponds A T seen seenT)
    (hlook : Distcc.lookAt i k next seen = .ok seen₁) (hhere : A[i]? = T[j]?)
    (hnext : k = .opt_o → A[i + 1]? = T[j + 1]?) :
    ∃ seenT₁, Distcc.lookAt j k next seenT = .ok seenT₁ ∧ Corresponds A T seen₁ seenT₁ := by
  cases k with
  | refused => cases hlook
  | plain | withArgument =>
    obtain rfl := Except.ok.inj hlook
    exact ⟨seenT, rfl, h⟩
  | opt_c =>
    obtain rfl := Except.ok.inj hlook
    exact ⟨_, rfl, { h with opt_c := rfl }⟩
  | opt_S =>
    obtain rfl := Except.ok.inj hlook
    exact ⟨_, rfl, { h with opt_s := rfl }⟩
  | opt_x =>
    cases next with
    | none => cases hlook
    | some lang =>
      simp only [Distcc.lookAt, giveUp] at hlook ⊢
      split_ifs at hlook with hempty hinput hext
      have hinput : seenT.input = none := h.input_none (by simpa using hinput)
      have hext : seenT.optx_ext = none := by
        rw [← h.optx_ext]
        simpa using hext
      split at hlook
      · cases hlook
      rename_i ext hlang
      obtain rfl := Except.ok.inj hlook
      refine ⟨{ seenT with optx_ext := some ext }, ?_, { h with optx_ext := rfl }⟩
      simp only [hempty, hinput, hext, if_false, Option.isSome_none, Bool.false_eq_true]
  | source =>
    obtain ⟨hnone, rfl⟩ := lookAt_source.mp hlook
    refine ⟨_, lookAt_source.mpr ⟨h.input_none hnone, rfl⟩, { h with input := ?_ }⟩
    simp [hhere]
  | opt_o =>
    obtain ⟨hnone, rfl⟩ := gotOutput_ok.mp hlook
    refine ⟨_, gotOutput_ok.mpr ⟨h.output_none hnone, rfl⟩, { h with output := ?_ }⟩
    simp [Place.view, hnext rfl]
  | joined =>
    obtain ⟨hnone, rfl⟩ := gotOutput_ok.mp hlook
    refine ⟨_, gotOutput_ok.mpr ⟨h.output_none hnone, rfl⟩, { h with output := ?_ }⟩
    simp [Place.view, hhere]
  | object =>
    obtain ⟨hnone, rfl⟩ := gotOutput_ok.mp hlook
    refine ⟨_, gotOutput_ok.mpr ⟨h.output_none hnone, rfl⟩, { h with output := ?_ }⟩
    simp [Place.view, hhere]

variable {remote : RemoteAssemble}

variable {rest : List Arg}

theorem lookedAt_plain (h : kind remote a = .plain) :
    lookedAt remote (a :: rest) = lookedAt remote rest := by
  rw [lookedAt.eq_def]
  simp only [h]

theorem lookedAt_withArgument {a x : Arg} (h : kind remote a = .withArgument) :
    lookedAt remote (a :: x :: rest) = lookedAt remote rest := by
  rw [lookedAt.eq_def]
  simp only [h]

variable {arg : List Arg}

theorem lookedAt_kept (h : kind remote a ≠ .plain)
    (h' : kind remote a ≠ .withArgument) (harity : arg.length = (kind remote a).arity) :
    lookedAt remote (a :: (arg ++ rest)) = a :: (arg ++ lookedAt remote rest) := by
  cases htakes : (kind remote a).takesNext with
  | false =>
    obtain rfl := arity_zero htakes harity
    rw [lookedAt.eq_def]
    cases hkind : kind remote a <;> simp_all [Kind.takesNext]
  | true =>
    obtain ⟨x, rfl⟩ := arity_one htakes harity
    rw [lookedAt.eq_def]
    cases hkind : kind remote a <;> simp_all [Kind.takesNext]

theorem lookedAt_congr {rest' : List Arg} (harity : arg.length = (kind remote a).arity)
    (h : lookedAt remote rest = lookedAt remote rest') :
    lookedAt remote (a :: (arg ++ rest)) = lookedAt remote (a :: (arg ++ rest')) := by
  by_cases hplain : kind remote a = .plain
  · obtain rfl := arity_zero (by rw [hplain]; rfl) harity
    rw [lookedAt_plain hplain, lookedAt_plain hplain]
    exact h
  by_cases hwith : kind remote a = .withArgument
  · obtain ⟨x, rfl⟩ := arity_one (by rw [hwith]; rfl) harity
    rw [singleton_append, singleton_append, lookedAt_withArgument hwith,
      lookedAt_withArgument hwith, h]
  · rw [lookedAt_kept hplain hwith harity, lookedAt_kept hplain hwith harity, h]

theorem strip_append (h : ∀ x ∈ arg, takesWord x = false ∧ leftOut x = false) :
    strip false (arg ++ rest) = arg ++ strip false rest := by
  induction arg with
  | nil => rfl
  | cons x arg ih =>
    rw [cons_append, strip_kept (h x mem_cons_self), cons_append]
    rw [ih fun y hy => h y (mem_cons_of_mem x hy)]

variable (remote A T) in
/-- What the scan of the client has come to where `l` is left, that of the server comes to
in what is left of `l`. -/
def Follows (i : Nat) (l : List Arg) (seen seen₂ : Seen) : Prop :=
  ∀ skip done doneT seenT, A = done ++ l → done.length = i → T = doneT ++ strip skip l →
    Corresponds A T seen seenT → stripsCleanly remote skip l = true →
    (∃ seenT₂, scanWords remote doneT.length (strip skip l) seenT = .ok seenT₂ ∧
      Corresponds A T seen₂ seenT₂) ∧ lookedAt remote (strip skip l) = lookedAt remote l

theorem Follows.dropped {arg rest : List Arg} {skip skip' : Bool}
    (h : Follows A T remote (i + 1 + arg.length) rest seen seen₂)
    (hA : A = done ++ a :: (arg ++ rest)) (hdone : done.length = i)
    (hT : T = doneT ++ strip skip (a :: (arg ++ rest))) (hR : Corresponds A T seen seenT)
    (hstrip : strip skip (a :: (arg ++ rest)) = strip skip' rest)
    (hlooked : lookedAt remote (a :: (arg ++ rest)) = lookedAt remote rest)
    (hclean : stripsCleanly remote skip' rest = true) :
    (∃ seenT₂, scanWords remote doneT.length (strip skip (a :: (arg ++ rest))) seenT =
      .ok seenT₂ ∧ Corresponds A T seen₂ seenT₂) ∧
      lookedAt remote (strip skip (a :: (arg ++ rest))) = lookedAt remote (a :: (arg ++ rest)) := by
  rw [hstrip] at hT ⊢
  rw [hlooked]
  apply h skip' (done ++ a :: arg) doneT seenT _ _ hT hR hclean
  · rw [hA]
    simp
  · rw [length_append, length_cons, hdone]
    omega

theorem Follows.copied (h : Follows A T remote (i + 1 + arg.length) rest seen₁ seen₂)
    (harity : arg.length = (kind remote a).arity)
    (hlook : Distcc.lookAt i (kind remote a) arg.head? seen = .ok seen₁)
    (hA : A = done ++ a :: (arg ++ rest)) (hdone : done.length = i)
    (hT : T = doneT ++ strip false (a :: (arg ++ rest))) (hR : Corresponds A T seen seenT)
    (hkept : ∀ x ∈ a :: arg, takesWord x = false ∧ leftOut x = false)
    (hclean : stripsCleanly remote false rest = true) :
    (∃ seenT₂, scanWords remote doneT.length (strip false (a :: (arg ++ rest))) seenT =
      .ok seenT₂ ∧ Corresponds A T seen₂ seenT₂) ∧
      lookedAt remote (strip false (a :: (arg ++ rest))) =
        lookedAt remote (a :: (arg ++ rest)) := by
  have hstrip : strip false (a :: (arg ++ rest)) = a :: (arg ++ strip false rest) :=
    strip_append hkept
  rw [hstrip] at hT ⊢
  have hhere : A[i]? = T[doneT.length]? := by
    rw [hA, hT, ← hdone]
    simp
  have hnext : kind remote a = .opt_o → A[i + 1]? = T[doneT.length + 1]? := by
    intro hkind
    obtain ⟨x, rfl⟩ := arity_one (by rw [hkind]; rfl) harity
    rw [hA, hT, ← hdone]
    simp
  obtain ⟨seenT₁, hlookT, hR₁⟩ := hR.lookAt hlook hhere hnext
  have hfollows := h false (done ++ a :: arg) (doneT ++ a :: arg) seenT₁ (by simp [hA])
    (by simp [hdone]; omega) (by simp [hT]) hR₁ hclean
  have hlen : (doneT ++ a :: arg).length = doneT.length + 1 + arg.length := by
    simp
    omega
  rw [hlen, ← scanWords_word arg harity hlookT] at hfollows
  exact ⟨hfollows.1, lookedAt_congr harity hfollows.2⟩

theorem lookAt_same (h : kind remote a = .plain ∨ kind remote a = .withArgument)
    (hlook : Distcc.lookAt i (kind remote a) next seen = .ok seen₁) : seen₁ = seen := by
  rcases h with h | h
  · rw [h] at hlook
    exact (Except.ok.inj hlook).symm
  · rw [h] at hlook
    exact (Except.ok.inj hlook).symm

theorem opt_x_language {lang : Option Arg} (h : Distcc.lookAt i .opt_x lang seen = .ok seen₁) :
    ∃ x ext, lang = some x ∧ dcc_optx_ext_lookup x = some ext := by
  cases lang with
  | none => cases h
  | some x =>
    simp only [Distcc.lookAt, giveUp] at h
    split_ifs at h
    split at h
    · cases h
    rename_i ext hlang
    exact ⟨x, ext, rfl, hlang⟩

variable (A T) in
theorem scanWords_follows {l : List Arg} {seen₂ : Seen}
    (h : scanWords remote i l seen = .ok seen₂) : Follows A T remote i l seen seen₂ := by
  revert h
  apply run_induction remote (motive := fun i l seen seen₂ => Follows A T remote i l seen seen₂)
  · intro i seen skip done doneT seenT hA hdone hT hR _
    refine ⟨⟨seenT, ?_, hR⟩, ?_⟩
    · rw [strip, scanWords]
    · rw [strip]
  · intro i a arg rest seen seen₁ seen₂ harity hlook _ ih skip done doneT seenT hA hdone hT hR hclean
    rw [stripsCleanly.eq_def] at hclean
    cases skip with
    | true =>
      simp only [if_true, Bool.and_eq_true, decide_eq_true_eq] at hclean
      obtain rfl := lookAt_same (Or.inl hclean.1) hlook
      obtain rfl := arity_zero (by rw [hclean.1]; rfl) harity
      exact ih.dropped hA hdone hT hR (strip_skip _) (lookedAt_plain hclean.1) hclean.2
    | false =>
      simp only [Bool.false_eq_true, if_false] at hclean
      cases hkind : kind remote a with
      | refused =>
        rw [hkind] at hlook
        cases hlook
      | plain =>
        rw [hkind] at hclean
        obtain rfl := arity_zero (by rw [hkind]; rfl) harity
        cases htakes : takesWord a with
        | true =>
          obtain rfl := lookAt_same (Or.inl hkind) hlook
          rw [htakes] at hclean
          exact ih.dropped hA hdone hT hR (strip_taken htakes) (lookedAt_plain hkind) hclean
        | false =>
          rw [htakes] at hclean
          cases hleft : leftOut a with
          | true =>
            obtain rfl := lookAt_same (Or.inl hkind) hlook
            have hstrip : strip false (a :: ([] ++ rest)) = strip false rest := by
              rw [strip, if_neg (by simp), if_neg (by simp [htakes]), if_pos hleft]
              rfl
            exact ih.dropped hA hdone hT hR hstrip (lookedAt_plain hkind) hclean
          | false =>
            exact ih.copied harity hlook hA hdone hT hR (by simp [htakes, hleft]) hclean
      | withArgument =>
        rw [hkind] at hclean
        obtain ⟨x, rfl⟩ := arity_one (by rw [hkind]; rfl) harity
        obtain rfl := lookAt_same (Or.inr hkind) hlook
        have hstrip : strip false (a :: ([x] ++ rest)) = strip false rest := by
          rw [strip_taken (takesWord_of_withArgument hkind)]
          exact strip_skip rest
        exact ih.dropped hA hdone hT hR hstrip (lookedAt_withArgument hkind) hclean
      | opt_x =>
        have hkept := kept (a := a) (by rw [hkind]; simp) (by rw [hkind]; simp)
        rw [hkind] at hclean
        obtain ⟨x, rfl⟩ := arity_one (by rw [hkind]; rfl) harity
        have hlang := hlook
        rw [hkind] at hlang
        obtain ⟨lang, ext, heq, hlang⟩ := opt_x_language hlang
        obtain rfl := Option.some.inj heq
        refine ih.copied harity hlook hA hdone hT hR ?_ hclean
        simp [hkept, language_kept hlang]
      | opt_o =>
        have hkept := kept (a := a) (by rw [hkind]; simp) (by rw [hkind]; simp)
        rw [hkind] at hclean
        obtain ⟨x, rfl⟩ := arity_one (by rw [hkind]; rfl) harity
        simp only [singleton_append, Bool.and_eq_true, Bool.not_eq_true'] at hclean
        refine ih.copied harity hlook hA hdone hT hR ?_ hclean.2
        simp [hkept, hclean.1]
      | opt_c | opt_S | joined | source | object =>
        have hkept := kept (a := a) (by rw [hkind]; simp) (by rw [hkind]; simp)
        rw [hkind] at hclean
        obtain rfl := arity_zero (by rw [hkind]; rfl) harity
        rw [hkept.1] at hclean
        exact ih.copied harity hlook hA hdone hT hR (by simp [hkept]) hclean

theorem read_of_view {place placeT : Place} (h : place.view A = placeT.view T) :
    place.read A = placeT.read T := by
  cases place <;> cases placeT <;>
    simp_all [Place.view, Place.read, getD_eq_getElem?_getD]

/-- The server accepts what is left with the same files, and nothing that the scan does
something with is left out. -/
structure ServerAgrees (remote : RemoteAssemble) (s : Scan) : Prop where
  accepted : ∃ s', dcc_scan_args remote (dcc_strip_local_args s.argv) = .ok s' ∧
    s'.input_file = s.input_file ∧ s'.output_file = s.output_file
  keeps : lookedAt remote (dcc_strip_local_args s.argv) = lookedAt remote s.argv

theorem strip_local_args_agrees (remote : RemoteAssemble) (argv : List Arg) (s : Scan)
    (h : dcc_scan_args remote argv = .ok s)
    (hclean : stripsCleanly remote false s.argv = true) : ServerAgrees remote s := by
  obtain ⟨seen, haccepted, _, _⟩ := scan_args_ok h
  obtain ⟨⟨seenT, hwords, hR⟩, hkeeps⟩ :=
    scanWords_follows s.argv (strip false s.argv) haccepted.words false [] [] {} rfl rfl rfl
      ⟨rfl, rfl, rfl, rfl, rfl⟩ hclean
  refine ⟨?_, hkeeps⟩
  have hinput := hR.input
  rw [haccepted.seesInput] at hinput
  obtain ⟨q, hq, hinput⟩ := Option.map_eq_some_iff.mp hinput.symm
  have houtput := hR.output
  rw [haccepted.seesOutput] at houtput
  obtain ⟨placeT, hplaceT, houtput⟩ := Option.map_eq_some_iff.mp houtput.symm
  have hsame : (strip false s.argv).getD q [] = s.argv.getD s.input [] := by
    rw [getD_eq_getElem?_getD, getD_eq_getElem?_getD, hinput]
  have hread : placeT.read (strip false s.argv) = s.output.read s.argv := read_of_view houtput
  have haccepted' : Accepted remote (strip false s.argv) seenT q placeT := by
    refine ⟨?_, hwords, ?_, hq, ?_, hplaceT, ?_⟩
    · have hcompiler := haccepted.compiler
      have hlt := (scanWords_placed haccepted.words).1 s.input haccepted.seesInput
      cases hargv : s.argv with
      | nil =>
        rw [hargv] at hlt
        cases hlt
      | cons a rest =>
        rw [hargv] at hcompiler
        have hcompiler : a.head? ≠ some 45 := hcompiler
        rw [strip_kept (noDash_kept hcompiler)]
        exact hcompiler
    · rw [← hR.opt_c, ← hR.opt_s]
      exact haccepted.compiles
    · rw [hsame]
      exact haccepted.distributed
    · rw [hread]
      exact haccepted.named
  exact ⟨_, haccepted'.scan, hsame, hread⟩

end Runs

theorem strip_local_args_hello :
    ∃ s, dcc_scan_args false (["cc", "-I", ".", "-c", "hello.c"].map ascii) = .ok s ∧
      ServerAgrees false s := by
  let s : Scan := ⟨["cc", "-I", ".", "-c", "hello.c", "-o", "hello.o"].map ascii, 4, .element 6,
    none⟩
  have hscan : dcc_scan_args false (["cc", "-I", ".", "-c", "hello.c"].map ascii) = .ok s := by
    rfl
  exact ⟨s, hscan, strip_local_args_agrees false _ s hscan (by decide)⟩

/-- An option without its argument, as where a variable of a makefile is empty. -/
theorem action_stripped :
    ∃ s, dcc_scan_args false (["cc", "-I", "-c", "hello.c"].map ascii) = .ok s ∧
      dcc_scan_args false (dcc_strip_local_args s.argv) = .error (.exit .EXIT_DISTCC_FAILED) ∧
      ¬ ServerAgrees false s := by
  let s : Scan := ⟨["cc", "-I", "-c", "hello.c", "-o", "hello.o"].map ascii, 3, .element 5, none⟩
  have hrefused : dcc_scan_args false (dcc_strip_local_args s.argv) =
      .error (.exit .EXIT_DISTCC_FAILED) := by
    rfl
  refine ⟨s, rfl, hrefused, ?_⟩
  intro hagrees
  obtain ⟨s', haccepted, _⟩ := hagrees.accepted
  cases haccepted

end Toolwhip.Distcc
