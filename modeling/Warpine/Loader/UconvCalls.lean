import Warpine.Loader.Uconv

/-! What the conversion calls leave: nothing after an error, and after a success the
parameters advanced by what has been taken and given. -/
namespace Warpine.Loader
open Warpine.Lib Warpine.Guest Warpine.Vfs

/-- The pointers and the counters have advanced by the input and the output, and the output
is in the memory. -/
structure Converted (inWidth outWidth : Nat) (mem next : GuestMemory) (args : UconvArgs)
    (words : UconvWords) (input output : List Nat) : Prop where
  inPtr : next.read 4 args.ppIn = some (words.inPtr + input.length * inWidth)
  inLeft : ∃ left, next.read 4 args.pInLeft = some left ∧ left + input.length = words.inLeft
  outPtr : next.read 4 args.ppOut = some (words.outPtr + output.length * outWidth)
  outLeft : ∃ left, next.read 4 args.pOutLeft = some left ∧ left + output.length = words.outLeft
  taken : mem.slice words.inPtr (input.length * inWidth) = some (input.flatMap (leBytes inWidth))
  given : next.slice words.outPtr (output.length * outWidth) =
    some (output.flatMap (leBytes outWidth))

/-- The output and the words that are written. -/
def UconvArgs.ranges (args : UconvArgs) (outPtr outLen : Nat) : List (Nat × Nat) :=
  [(outPtr, outLen), (args.ppIn, 4), (args.pInLeft, 4), (args.ppOut, 4), (args.pOutLeft, 4)]

structure ParametersApart (args : UconvArgs) (outPtr outLen : Nat) : Prop where
  words : (args.ranges outPtr outLen).Pairwise fun first second =>
    Apart first.1 first.2 second.1 second.2
  subs : args.pSubs ≠ 0 → ∀ range ∈ args.ranges outPtr outLen,
    Apart args.pSubs 4 range.1 range.2

/-- A call that fails changes nothing. One that succeeds takes the whole input and gives its
conversion, if both are in the memory and no parameter lies over another or the output; the
output converts back to the input where the conversion is free of loss. -/
structure UconvExact (inWidth outWidth : Nat) (convert back : Nat → List Nat → List Nat)
    (lossless : Nat → List Nat → Prop) (mgr : UconvManager) (mem : GuestMemory) (args : UconvArgs)
    (result : Nat × GuestMemory) : Prop where
  error : result.1 ≠ ulsSuccess → result.2 = mem
  success : result.1 = ulsSuccess → ∃ cp words, mgr.lookup args.uobj = some cp ∧
    args.readWords mem = some words ∧
      let input := readUnits mem inWidth words.inPtr words.inLeft
      let output := convert cp input
      (back cp output = input ↔ lossless cp input) ∧
        (words.inPtr + words.inLeft * inWidth ≤ mem.size →
          words.outPtr + output.length * outWidth ≤ mem.size →
            ParametersApart args words.outPtr (output.length * outWidth) →
              input.length = words.inLeft ∧
                Converted inWidth outWidth mem result.2 args words input output)

section Calls

variable {inWidth outWidth : Nat} {convert back : Nat → List Nat → List Nat}
  {lossless : Nat → List Nat → Prop} {write : GuestMemory → Nat → List Nat → GuestMemory}
  {mgr : UconvManager} {mem : GuestMemory} {args : UconvArgs} {words : UconvWords} {cp : Nat}

theorem uniUconv_error
    (failed : (uniUconv inWidth outWidth convert write mgr mem args).1 ≠ ulsSuccess) :
    (uniUconv inWidth outWidth convert write mgr mem args).2 = mem := by
  unfold uniUconv at failed ⊢
  split
  · rfl
  · rename_i cp found
    rw [found] at failed
    dsimp only at failed ⊢
    split
    · rfl
    · rename_i words given
      rw [given] at failed
      dsimp only at failed ⊢
      by_cases null : words.inPtr = 0 ∨ words.outPtr = 0
      · rw [if_pos null]
      · rw [if_neg null] at failed ⊢
        by_cases full : words.outLeft <
            (convert cp (readUnits mem inWidth words.inPtr words.inLeft)).length
        · rw [if_pos full]
        · rw [if_neg full] at failed
          exact absurd rfl failed

/-- The writes of a call that succeeds, before the count of substitutions. -/
def uconvWrites (inWidth outWidth : Nat) (args : UconvArgs) (words : UconvWords)
    (input output : List Nat) : List (Nat × List UInt8) :=
  [(words.outPtr, output.flatMap (leBytes outWidth)),
    (args.ppIn, leBytes 4 (wrapAdd words.inPtr (input.length * inWidth))),
    (args.pInLeft, leBytes 4 0),
    (args.ppOut, leBytes 4 (wrapAdd words.outPtr (output.length * outWidth))),
    (args.pOutLeft, leBytes 4 (words.outLeft - output.length))]

theorem uniUconv_success
    (ok : (uniUconv inWidth outWidth convert write mgr mem args).1 = ulsSuccess) :
    ∃ cp words, mgr.lookup args.uobj = some cp ∧ args.readWords mem = some words ∧
      let input := readUnits mem inWidth words.inPtr words.inLeft
      let output := convert cp input
      output.length ≤ words.outLeft ∧
        (write mem words.outPtr output = mem.putBytes words.outPtr (output.flatMap (leBytes outWidth)) →
          (uniUconv inWidth outWidth convert write mgr mem args).2 =
            (mem.putAll (uconvWrites inWidth outWidth args words input output)).putAt 4
              args.pSubs 0) := by
  unfold uniUconv at ok ⊢
  cases found : mgr.lookup args.uobj with
  | none =>
    rw [found] at ok
    exact absurd ok (show ulsBadObject ≠ ulsSuccess by decide)
  | some cp =>
    rw [found] at ok
    cases given : args.readWords mem with
    | none =>
      rw [given] at ok
      exact absurd ok (show ulsInvalid ≠ ulsSuccess by decide)
    | some words =>
      rw [given] at ok
      refine ⟨cp, words, rfl, rfl, ?_⟩
      dsimp only at ok ⊢
      by_cases null : words.inPtr = 0 ∨ words.outPtr = 0
      · rw [if_pos null] at ok
        exact absurd ok (show ulsInvalid ≠ ulsSuccess by decide)
      · rw [if_neg null] at ok ⊢
        by_cases full : words.outLeft <
            (convert cp (readUnits mem inWidth words.inPtr words.inLeft)).length
        · rw [if_pos full] at ok
          exact absurd ok (show ulsBufferFull ≠ ulsSuccess by decide)
        · rw [if_neg full]
          refine ⟨Nat.not_lt.mp full, fun written => ?_⟩
          rw [written]
          rfl

theorem readWords_eq_some (h : args.readWords mem = some words) :
    mem.read 4 args.ppIn = some words.inPtr ∧ mem.read 4 args.pInLeft = some words.inLeft ∧
      mem.read 4 args.ppOut = some words.outPtr ∧ mem.read 4 args.pOutLeft = some words.outLeft := by
  unfold UconvArgs.readWords at h
  simp only [Option.bind_eq_bind, Option.bind_eq_some_iff, Option.pure_def,
    Option.some.injEq] at h
  obtain ⟨inPtr, hInPtr, inLeft, hInLeft, outPtr, hOutPtr, outLeft, hOutLeft, rfl⟩ := h
  exact ⟨hInPtr, hInLeft, hOutPtr, hOutLeft⟩

/-- The calls of either kind. -/
theorem uniUconv_exact (small : mem.size < u32Size)
    (written : ∀ ptr units, ptr + units.length * outWidth ≤ mem.size →
      write mem ptr units = mem.putBytes ptr (units.flatMap (leBytes outWidth)))
    (returns : ∀ cp input, back cp (convert cp input) = input ↔ lossless cp input) :
    UconvExact inWidth outWidth convert back lossless mgr mem args
      (uniUconv inWidth outWidth convert write mgr mem args) := by
  refine ⟨uniUconv_error, fun ok => ?_⟩
  obtain ⟨cp, words, found, given, room, result⟩ := uniUconv_success ok
  refine ⟨cp, words, found, given, returns cp _, ?_⟩
  intro inside outside apart
  obtain ⟨length, taken⟩ := readUnits_spec small inside
  obtain ⟨hInPtr, hInLeft, hOutPtr, hOutLeft⟩ := readWords_eq_some given
  have next := result (written _ _ outside)
  generalize hinput : readUnits mem inWidth words.inPtr words.inLeft = input at *
  generalize houtput : convert cp input = output at *
  have outLength : (output.flatMap (leBytes outWidth)).length = output.length * outWidth := by
    rw [List.length_flatMap]
    simp
  have fit : ∀ entry ∈ uconvWrites inWidth outWidth args words input output,
      mem.inBounds entry.1 entry.2.length := by
    unfold uconvWrites
    simp only [List.forall_mem_cons, leBytes_length, outLength]
    exact ⟨decide_eq_true outside, GuestMemory.inBounds_of_read hInPtr, GuestMemory.inBounds_of_read hInLeft,
      GuestMemory.inBounds_of_read hOutPtr, GuestMemory.inBounds_of_read hOutLeft, by simp⟩
  have ranges : (uconvWrites inWidth outWidth args words input output).map
      (fun entry => (entry.1, entry.2.length)) =
        args.ranges words.outPtr (output.length * outWidth) := by
    unfold uconvWrites UconvArgs.ranges
    simp only [List.map_cons, List.map_nil, leBytes_length, outLength]
  have separate : (uconvWrites inWidth outWidth args words input output).Pairwise
      ByteStore.WritesApart := by
    have pairs := apart.words
    rw [← ranges, List.pairwise_map] at pairs
    exact pairs
  have all := @writeAll_putAll _ mem fit
  -- what each of the writes has left at its place
  have left : ∀ entry ∈ uconvWrites inWidth outWidth args words input output,
      (uniUconv inWidth outWidth convert write mgr mem args).2.slice entry.1 entry.2.length =
        some entry.2 := by
    intro entry member
    rw [next, ← mem.slice_writeAll all separate member, GuestMemory.putAt]
    split
    · rename_i some_
      have range := List.mem_map_of_mem (f := fun entry : Nat × List UInt8 =>
        (entry.1, entry.2.length)) member
      rw [ranges] at range
      exact GuestMemory.slice_put_apart (apart.subs some_ _ range)
    · rfl
  unfold uconvWrites at left
  simp only [List.forall_mem_cons, leBytes_length, outLength] at left
  obtain ⟨output_, ppIn, pInLeft, ppOut, pOutLeft, _⟩ := left
  have word {addr value : Nat} (lt : value < u32Size)
      (h : (uniUconv inWidth outWidth convert write mgr mem args).2.slice addr 4 =
        some (leBytes 4 value)) :
      (uniUconv inWidth outWidth convert write mgr mem args).2.read 4 addr = some value :=
    (GuestMemory.read_eq_some _).mpr ⟨lt, h⟩
  have outLeft := GuestMemory.read_lt hOutLeft
  rw [wrapAdd_of_lt (by rw [length]; omega)] at ppIn
  rw [wrapAdd_of_lt (by omega)] at ppOut
  refine ⟨length, word (by rw [length]; omega) ppIn, ⟨0, word (by decide) pInLeft, by omega⟩,
    word (by omega) ppOut,
    ⟨words.outLeft - output.length, word (by unfold u32Size; omega) pOutLeft, by omega⟩, ?_, output_⟩
  rw [length]
  exact taken

end Calls

section Samples

/-- The four words at 16, and the input. -/
def uconvMemory (words : UconvWords) (input : List UInt8) : GuestMemory :=
  let zero : ByteStore := fun _ => 0
  ⟨256, (zero.store 16 (leBytes 4 words.inPtr ++ leBytes 4 words.inLeft ++
    leBytes 4 words.outPtr ++ leBytes 4 words.outLeft)).store words.inPtr input⟩

def uconvObjects : UconvManager := ⟨[(0x8001, 850), (0x8002, 437)]⟩

/-- The calls as they might be expected: all that succeeds is complete and converts back. -/
def UconvComplete (inWidth outWidth : Nat) (back : Nat → List Nat → List Nat) (mgr : UconvManager)
    (mem : GuestMemory) (args : UconvArgs) (result : Nat × GuestMemory) : Prop :=
  (result.1 ≠ ulsSuccess → result.2 = mem) ∧
    (result.1 = ulsSuccess → ∃ cp words input output, mgr.lookup args.uobj = some cp ∧
      args.readWords mem = some words ∧
        Converted inWidth outWidth mem result.2 args words input output ∧ back cp output = input)

/-- The counters tell how much has been taken and given. -/
theorem UconvComplete.counted {inWidth outWidth : Nat} {back : Nat → List Nat → List Nat}
    {mgr : UconvManager} {mem : GuestMemory} {args : UconvArgs} {result : Nat × GuestMemory}
    {words : UconvWords} {inLeft outLeft : Nat}
    (complete : UconvComplete inWidth outWidth back mgr mem args result)
    (ok : result.1 = ulsSuccess) (given : args.readWords mem = some words)
    (hin : result.2.read 4 args.pInLeft = some inLeft)
    (hout : result.2.read 4 args.pOutLeft = some outLeft) :
    ∃ cp input output, mgr.lookup args.uobj = some cp ∧
      Converted inWidth outWidth mem result.2 args words input output ∧ back cp output = input ∧
        inLeft + input.length = words.inLeft ∧ outLeft + output.length = words.outLeft := by
  obtain ⟨cp, words', input, output, found, given', whole, back⟩ := complete.2 ok
  rw [given, Option.some.injEq] at given'
  subst given'
  obtain ⟨left, here, total⟩ := whole.inLeft
  obtain ⟨left', there, total'⟩ := whole.outLeft
  rw [hin, Option.some.injEq] at here
  rw [hout, Option.some.injEq] at there
  subst here there
  exact ⟨cp, input, output, found, whole, back, total, total'⟩

end Samples

end Warpine.Loader
