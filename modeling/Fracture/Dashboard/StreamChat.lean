import Mathlib.Data.List.Basic

/-!
# The dashboard's chat stream

The dashboard reads a streamed answer piece by piece as the network delivers
it. Decoded text is kept in a buffer until a line of it is complete; every
complete line with data is parsed and passed on, and a line that says so ends
the stream.
-/

namespace Fracture

/-- What the reader calls back. -/
inductive Call (J : Type) where
  | onChunk (chunk : J)
  | onDone
deriving DecidableEq, Repr

/-- White space and line ends of ECMAScript, which `trim` removes. -/
def isSpace (c : Char) : Bool :=
  c.toNat ∈ [0x9, 0xA, 0xB, 0xC, 0xD, 0x20, 0xA0, 0x1680, 0x2028, 0x2029, 0x202F, 0x205F, 0x3000,
    0xFEFF] || 0x2000 ≤ c.toNat && c.toNat ≤ 0x200A

def trim (s : List Char) : List Char := ((s.dropWhile isSpace).reverse.dropWhile isSpace).reverse

def doneLine : List Char := "data: [DONE]".toList

def dataMark : List Char := "data: ".toList

/-- `new TextDecoder()`, used in stream mode. -/
structure TextDecoder where
  State : Type
  start : State
  decode : State → List UInt8 → State × List Char

/-- The text of each read. -/
def TextDecoder.texts (d : TextDecoder) : d.State → List (List UInt8) → List (List Char)
  | _, [] => []
  | state, value :: reads =>
    let (state, text) := d.decode state value
    text :: d.texts state reads

section

variable {J : Type} (parse : List Char → Option J)

/-- The loop over complete lines, and whether it returned from the reader. A
line that does not parse is skipped. -/
def handleLines : List (List Char) → List (Call J) × Bool
  | [] => ([], false)
  | line :: lines =>
    let trimmed := trim line
    if trimmed = [] then handleLines lines
    else if trimmed = doneLine then ([.onDone], true)
    else if dataMark <+: trimmed then
      match parse (trimmed.drop 6) with
      | some chunk =>
        let (calls, returned) := handleLines lines
        (.onChunk chunk :: calls, returned)
      | none => handleLines lines
    else handleLines lines

/-- The loop over reads. -/
def readLoop (buffer : List Char) : List (List Char) → List (Call J)
  | [] => [.onDone]
  | value :: reads =>
    let lines := (buffer ++ value).splitOn '\n'
    let (calls, returned) := handleLines parse lines.dropLast
    if returned then calls else calls ++ readLoop (lines.getLast?.getD []) reads

/-- The callbacks of `streamChat` for a response whose body is read in these
pieces. -/
def streamChat (d : TextDecoder) (reads : List (List UInt8)) : List (Call J) :=
  readLoop parse [] (d.texts d.start reads)

/-! ## Lines of the whole text -/

/-- The parsed JSON of a line of data. -/
def dataOf (trimmed : List Char) : Option J :=
  if dataMark <+: trimmed then parse (trimmed.drop 6) else none

/-- The data of the lines before the first one that ends the stream. -/
def dataBefore (lines : List (List Char)) : List J :=
  ((lines.map trim).takeWhile (· ≠ doneLine)).filterMap (dataOf parse)

def completeLines (text : List Char) : List (List Char) := (text.splitOn '\n').dropLast

end

variable {J : Type} {parse : List Char → Option J}

theorem dataBefore_cons (line : List Char) (lines : List (List Char)) :
    dataBefore parse (line :: lines) = if trim line = doneLine then []
      else (dataOf parse (trim line)).toList ++ dataBefore parse lines := by
  simp only [dataBefore, List.map_cons, List.takeWhile_cons]
  by_cases hend : trim line = doneLine
  · simp [hend]
  · cases hdata : dataOf parse (trim line) <;> simp [hend, hdata]

theorem handleLines_eq (lines : List (List Char)) :
    handleLines parse lines = ((dataBefore parse lines).map .onChunk
      ++ (if doneLine ∈ lines.map trim then [.onDone] else []),
      decide (doneLine ∈ lines.map trim)) := by
  induction lines with
  | nil => rfl
  | cons line lines ih =>
    rw [handleLines, ih, dataBefore_cons, List.map_cons]
    by_cases hend : trim line = doneLine
    · have hne : doneLine ≠ [] := by decide
      simp [hend, hne]
    have hrest : doneLine ∈ trim line :: lines.map trim ↔ doneLine ∈ lines.map trim := by
      simp [Ne.symm hend]
    simp only [hend, hrest, if_false]
    by_cases hmark : dataMark <+: trim line
    · have hne : trim line ≠ [] := hmark.ne_nil (by decide)
      cases hparse : parse ((trim line).drop 6) <;> simp [hne, hmark, dataOf, hparse]
    · simp [hmark, dataOf]

/-- Text is split into its complete lines and what is behind them, and more
text continues there. -/
theorem exists_splitOn_append (xs : List Char) :
    ∃ lines rest, xs.splitOn '\n' = lines ++ [rest] ∧
      ∀ ys, (xs ++ ys).splitOn '\n' = lines ++ (rest ++ ys).splitOn '\n' := by
  induction xs with
  | nil => exact ⟨[], [], rfl, fun _ => rfl⟩
  | cons x xs ih =>
    obtain ⟨lines, rest, hsplit, hmore⟩ := ih
    simp only [List.cons_append, List.splitOn_cons_eq_if_modifyHead, hsplit, hmore]
    by_cases hx : x == '\n'
    · exact ⟨[] :: lines, rest, by simp [hx], fun ys => by simp [hx]⟩
    cases lines with
    | nil =>
      refine ⟨[], x :: rest, by simp [hx], fun ys => ?_⟩
      simp [hx, List.splitOn_cons_eq_if_modifyHead]
    | cons line lines => exact ⟨(x :: line) :: lines, rest, by simp [hx], fun ys => by simp [hx]⟩

theorem dataBefore_append (lines more : List (List Char)) :
    dataBefore parse (lines ++ more) = dataBefore parse lines ++
      if doneLine ∈ lines.map trim then [] else dataBefore parse more := by
  induction lines with
  | nil => rfl
  | cons line lines ih =>
    rw [List.cons_append, dataBefore_cons, dataBefore_cons, ih, List.map_cons]
    grind

/-- However the text behind an incomplete line is cut, it is handled as a
whole. -/
theorem readLoop_eq {buffer : List Char} (hbuffer : buffer.splitOn '\n' = [buffer])
    (reads : List (List Char)) :
    readLoop parse buffer reads
      = (dataBefore parse (completeLines (buffer ++ reads.flatten))).map .onChunk ++ [.onDone] := by
  induction reads generalizing buffer with
  | nil =>
    rw [List.flatten_nil, List.append_nil, completeLines, hbuffer]
    rfl
  | cons value reads ih =>
    obtain ⟨lines, rest, hsplit, hmore⟩ := exists_splitOn_append (buffer ++ value)
    have hrest : rest.splitOn '\n' = [rest] := by
      have hsame := hmore []
      rw [List.append_nil, List.append_nil, hsplit] at hsame
      exact (List.append_cancel_left hsame).symm
    have hlines : completeLines (buffer ++ (value :: reads).flatten)
        = lines ++ completeLines (rest ++ reads.flatten) := by
      rw [List.flatten_cons, ← List.append_assoc, completeLines, hmore,
        List.dropLast_append_of_ne_nil (List.splitOn_ne_nil _ _), completeLines]
    rw [hlines, dataBefore_append, readLoop, hsplit]
    simp only [List.dropLast_concat, handleLines_eq, List.getLast?_concat, Option.getD_some,
      ih hrest, decide_eq_true_eq]
    by_cases hend : doneLine ∈ lines.map trim
    · simp only [if_pos hend, List.append_nil]
    · simp only [if_neg hend, List.append_nil, List.map_append, List.append_assoc]

/-- The decoder gives the same text however its input is cut. -/
def TextDecoder.SplitIndependent (d : TextDecoder) : Prop :=
  ∀ reads : List (List UInt8), (d.texts d.start reads).flatten
    = (d.texts d.start [reads.flatten]).flatten

/-- **The stream does not depend on the reads.** Whatever pieces a body is
read in, the reader passes on the data of the complete lines of its text
before the first that ends the stream, and then calls back once that it is
done. -/
theorem streamChat_eq {d : TextDecoder} (hd : d.SplitIndependent) (reads : List (List UInt8))
    (parse : List Char → Option J) :
    streamChat parse d reads
      = (dataBefore parse (completeLines (d.decode d.start reads.flatten).2)).map .onChunk
        ++ [.onDone] := by
  rw [streamChat, readLoop_eq rfl, List.nil_append, hd]
  simp [TextDecoder.texts]

/-- A decoder of single bytes. -/
def bytesDecoder : TextDecoder where
  State := Unit
  start := ()
  decode _ value := ((), value.map fun b => .ofNat b.toNat)

theorem streamChat_eq_bytes :
    bytesDecoder.SplitIndependent ∧
      streamChat (J := List Char) some bytesDecoder [[100, 97], [116, 97, 58, 32, 49, 13], [10, 120]]
        = [.onChunk ['1'], .onDone] := by
  have hd : bytesDecoder.SplitIndependent := by
    intro reads
    induction reads with
    | nil => rfl
    | cons value reads ih => simp_all [TextDecoder.texts, bytesDecoder]
  exact ⟨hd, (streamChat_eq hd _ _).trans (by decide +kernel)⟩

end Fracture
