import Mathlib.Data.List.DropRight
import Snapshot.ByteText
import Snapshot.Utf8

/-! `ProcessOutput` of `agent/internal/runtime/process_output.go`: what is kept of the output of a child process.
Standard error arrives in chunks that end anywhere. A bounded tail of it is kept, and the first line that
starts with one of some prefixes; a line is looked at when it ends, and as far as a bound. -/
namespace ProcessDetail

open LexicalPath (Bytes)
open ByteText (literal)

def processStderrTailBytes : ℕ := 4096

def processDetailBytes : ℕ := 512

def newline : UInt8 := 10

def truncateDetail (s : Bytes) : Bytes :=
  if s.length ≤ processDetailBytes then s else s.take processDetailBytes ++ literal "..."

/-! ## The tail of standard error -/

structure TailBuffer where
  limit : ℕ
  data : Bytes

def TailBuffer.write (b : TailBuffer) (p : Bytes) : TailBuffer :=
  let data := b.data ++ p
  if data.length > b.limit then { b with data := data.drop (data.length - b.limit) } else { b with data := data }

structure StderrTail where
  tail : TailBuffer
  causePrefixes : List Bytes
  cause : Bytes
  partialLine : Bytes

/-- `matches`: the line without the white space around it starts with a prefix. -/
def startsWithCause (causePrefixes : List Bytes) (line : Bytes) : Bool :=
  causePrefixes.any (·.isPrefixOf (Utf8.trimSpace line))

namespace StderrTail

def appendPartial (s : StderrTail) (p : Bytes) : StderrTail :=
  let room := processDetailBytes + 1 - s.partialLine.length
  if 0 < room then { s with partialLine := s.partialLine ++ p.take (min room p.length) } else s

theorem drop_lt_length {p : Bytes} {i : ℕ} (h : p.idxOf? newline = some i) : (p.drop (i + 1)).length < p.length := by
  obtain ⟨hi, -⟩ := List.idxOf?_eq_some_iff.1 h
  rw [List.length_drop]
  omega

def scan (s : StderrTail) (p : Bytes) : StderrTail :=
  if p = [] then s
  else
    match h : p.idxOf? newline with
    | none => s.appendPartial p
    | some i =>
      let line := (s.appendPartial (p.take i)).partialLine
      let s := { s with partialLine := [] }
      if startsWithCause s.causePrefixes line then { s with cause := truncateDetail (Utf8.trimSpace line) }
      else s.scan (p.drop (i + 1))
termination_by p.length
decreasing_by exact drop_lt_length h

def write (s : StderrTail) (p : Bytes) : StderrTail :=
  let s := { s with tail := s.tail.write p }
  if s.cause = [] then s.scan p else s

def causeLine (s : StderrTail) : Bytes :=
  if s.cause = [] ∧ startsWithCause s.causePrefixes s.partialLine = true then
    truncateDetail (Utf8.trimSpace s.partialLine)
  else s.cause

end StderrTail

/-! ## The output of a process -/

structure ProcessOutput where
  stdout : Bytes
  stderr : StderrTail

def newProcessOutput (causePrefixes : List Bytes) : ProcessOutput :=
  ⟨[], ⟨⟨processStderrTailBytes, []⟩, causePrefixes, [], []⟩⟩

/-- A chunk of one of the two streams. -/
inductive Chunk where
  | stdout (p : Bytes)
  | stderr (p : Bytes)

namespace ProcessOutput

def write (o : ProcessOutput) : Chunk → ProcessOutput
  | .stdout p => { o with stdout := o.stdout ++ p }
  | .stderr p => { o with stderr := o.stderr.write p }

/-- `LastStderrLine`: the last line of the tail that is not blank. -/
def lastStderrLine (o : ProcessOutput) : Bytes :=
  truncateDetail ((((o.stderr.tail.data.splitOn newline).map Utf8.trimSpace).filter (· ≠ [])).getLastD [])

def detailFrom (o : ProcessOutput) (stderrLine : Bytes) : Bytes :=
  let out := Utf8.trimSpace o.stdout
  (literal "; ").intercalate
    ((if stderrLine ≠ [] then [truncateDetail stderrLine] else []) ++
      if out ≠ [] then [literal "stdout: " ++ truncateDetail out] else [])

def detail (o : ProcessOutput) : Bytes :=
  o.detailFrom (if o.stderr.causeLine = [] then o.lastStderrLine else o.stderr.causeLine)

end ProcessOutput

/-! ## What the streams say -/

/-- As much of a line as is looked at. -/
def cut (line : Bytes) : Bytes := line.take (processDetailBytes + 1)

/-- The first line of a stream that starts with a prefix; the last line need not have ended. -/
def firstCause (causePrefixes : List Bytes) (stream : Bytes) : Bytes :=
  match (stream.splitOn newline).find? fun line => startsWithCause causePrefixes (cut line) with
  | some line => truncateDetail (Utf8.trimSpace (cut line))
  | none => []

/-- Lines that have ended, and what follows them. -/
def text (lines : List Bytes) (rest : Bytes) : Bytes := lines.flatMap (· ++ [newline]) ++ rest

section Scanning

variable {s : StderrTail} {lines : List Bytes} {line rest p q : Bytes} {causePrefixes : List Bytes}

theorem text_append : text lines rest ++ p = text lines (rest ++ p) := by
  rw [text, text, List.append_assoc]

theorem text_end : text lines (line ++ newline :: rest) = text (lines ++ [line]) rest := by
  simp [text]

theorem splitOn_text (hlines : ∀ line ∈ lines, newline ∉ line) :
    (text lines rest).splitOn newline = lines ++ rest.splitOn newline := by
  induction lines with
  | nil => rfl
  | cons line lines ih =>
    have hsplit : text (line :: lines) rest = line ++ newline :: text lines rest := by simp [text]
    rw [hsplit, List.splitOn_append_cons_self, List.splitOn_eq_singleton (hlines line List.mem_cons_self),
      ih fun x hx => hlines x (List.mem_cons_of_mem _ hx), List.singleton_append, List.cons_append]

/-- The first newline ends a line. -/
theorem line_of_idxOf? {i : ℕ} (h : p.idxOf? newline = some i) :
    newline ∉ p.take i ∧ p = p.take i ++ newline :: p.drop (i + 1) := by
  obtain ⟨hi, hat, hbefore⟩ := List.idxOf?_eq_some_iff.1 h
  constructor
  · intro hmem
    obtain ⟨j, hj, hget⟩ := List.getElem_of_mem hmem
    rw [List.length_take] at hj
    rw [List.getElem_take] at hget
    exact hbefore j (by omega) hget
  · rw [← hat, List.getElem_cons_drop, List.take_append_drop]

theorem appendPartial_cut (hs : s.partialLine = cut line) : (s.appendPartial p).partialLine = cut (line ++ p) := by
  have hlength : s.partialLine.length = min (processDetailBytes + 1) line.length := by rw [hs, cut, List.length_take]
  rw [StderrTail.appendPartial]
  by_cases hroom : 0 < processDetailBytes + 1 - s.partialLine.length
  · rw [if_pos hroom, hs, cut, cut, List.take_append]
    have hroom' : processDetailBytes + 1 - (line.take (processDetailBytes + 1)).length = processDetailBytes + 1 - line.length := by
      rw [List.length_take]
      omega
    rw [hroom', List.append_right_inj, List.take_eq_take_iff]
    omega
  · have hfull : processDetailBytes + 1 ≤ line.length := by omega
    rw [if_neg hroom, hs, cut, cut, List.take_append_of_le_length hfull]

/-- What the scanner knows of the stream that it has read: no line has matched yet, or the first one that did. -/
inductive Scanned (s : StderrTail) (stream : Bytes) : Prop where
  | searching (lines : List Bytes) (line : Bytes) (hstream : stream = text lines line)
      (hlines : ∀ x ∈ lines, newline ∉ x ∧ startsWithCause s.causePrefixes (cut x) = false) (hline : newline ∉ line)
      (hcause : s.cause = []) (hopen : s.partialLine = cut line)
  | found (lines : List Bytes) (line rest : Bytes) (hstream : stream = text (lines ++ [line]) rest)
      (hlines : ∀ x ∈ lines, newline ∉ x ∧ startsWithCause s.causePrefixes (cut x) = false) (hline : newline ∉ line)
      (hmatch : startsWithCause s.causePrefixes (cut line) = true)
      (hcause : s.cause = truncateDetail (Utf8.trimSpace (cut line)))

theorem appendPartial_same : (s.appendPartial p).causePrefixes = s.causePrefixes ∧ (s.appendPartial p).cause = s.cause ∧
    (s.appendPartial p).tail = s.tail := by
  rw [StderrTail.appendPartial]
  split
  · exact ⟨rfl, rfl, rfl⟩
  · exact ⟨rfl, rfl, rfl⟩

/-- The line that a newline in a chunk ends. -/
theorem text_idxOf? {i : ℕ} (hline : newline ∉ line) (h : p.idxOf? newline = some i) :
    newline ∉ line ++ p.take i ∧ text lines (line ++ p) = text (lines ++ [line ++ p.take i]) (p.drop (i + 1)) := by
  obtain ⟨hbefore, hp⟩ := line_of_idxOf? h
  constructor
  · rw [List.mem_append]
    exact not_or.2 ⟨hline, hbefore⟩
  · calc text lines (line ++ p) = text lines (line ++ (p.take i ++ newline :: p.drop (i + 1))) := by rw [← hp]
      _ = text (lines ++ [line ++ p.take i]) (p.drop (i + 1)) := by rw [← List.append_assoc, text_end]

/-- A chunk is read on from the line that has not ended. -/
theorem Scanned.scan (hstream : ∀ x ∈ lines, newline ∉ x ∧ startsWithCause s.causePrefixes (cut x) = false) (hline : newline ∉ line)
    (hcause : s.cause = []) (hopen : s.partialLine = cut line) :
    Scanned (s.scan p) (text lines (line ++ p)) ∧ (s.scan p).causePrefixes = s.causePrefixes ∧ (s.scan p).tail = s.tail := by
  fun_induction StderrTail.scan s p generalizing lines line with
  | case1 s =>
    rw [List.append_nil]
    exact ⟨.searching lines line rfl hstream hline hcause hopen, rfl, rfl⟩
  | case2 s p hne hnone =>
    have hp : newline ∉ p := List.idxOf?_eq_none_iff.1 hnone
    obtain ⟨hprefixes, hcause', htail⟩ := @appendPartial_same s p
    refine ⟨.searching lines (line ++ p) rfl ?_ ?_ (hcause'.trans hcause) (appendPartial_cut hopen), hprefixes, htail⟩
    · rw [hprefixes]
      exact hstream
    · rw [List.mem_append]
      exact not_or.2 ⟨hline, hp⟩
  | case3 s p hne i hsome read =>
    rename_i reset hmatch
    obtain ⟨hended, htext⟩ := @text_idxOf? lines line p i hline hsome
    have hread : read = cut (line ++ p.take i) := appendPartial_cut hopen
    rw [htext]
    rw [hread] at hmatch ⊢
    exact ⟨.found lines (line ++ p.take i) (p.drop (i + 1)) rfl hstream hended hmatch rfl, rfl, rfl⟩
  | case4 s p hne i hsome read reset =>
    rename_i hmatch ih
    obtain ⟨hended, htext⟩ := @text_idxOf? lines line p i hline hsome
    have hread : read = cut (line ++ p.take i) := appendPartial_cut hopen
    rw [hread, Bool.not_eq_true] at hmatch
    rw [htext, ← List.nil_append (p.drop (i + 1))]
    refine ih (fun x hx => ?_) List.not_mem_nil hcause rfl
    rcases List.mem_append.1 hx with hx | hx
    · exact hstream x hx
    · rw [List.mem_singleton.1 hx]
      exact ⟨hended, hmatch⟩

/-- A line that matched is recorded as one that did: it is not empty. -/
theorem detail_ne_nil (hprefixes : ∀ x ∈ causePrefixes, x ≠ []) (h : startsWithCause causePrefixes line = true) :
    truncateDetail (Utf8.trimSpace line) ≠ [] := by
  obtain ⟨x, hx, hstart⟩ := List.any_eq_true.1 h
  obtain ⟨t, ht⟩ := List.isPrefixOf_iff_prefix.1 hstart
  have hpos : 0 < (Utf8.trimSpace line).length := by
    rw [← ht, List.length_append]
    have := List.length_pos_of_ne_nil (hprefixes x hx)
    omega
  rw [truncateDetail]
  split
  · exact List.ne_nil_of_length_pos hpos
  · intro hnil
    have hlength := congrArg List.length (List.append_eq_nil_iff.1 hnil).1
    rw [List.length_take, List.length_nil, processDetailBytes] at hlength
    omega

theorem Scanned.write (hprefixes : ∀ x ∈ s.causePrefixes, x ≠ []) (h : Scanned s q) :
    Scanned (s.write p) (q ++ p) ∧ (s.write p).causePrefixes = s.causePrefixes ∧ (s.write p).tail = s.tail.write p := by
  cases h with
  | searching lines line hstream hlines hline hcause hopen =>
    rw [StderrTail.write, if_pos hcause, hstream, text_append]
    exact Scanned.scan (s := { s with tail := s.tail.write p }) hlines hline hcause hopen
  | found lines line rest hstream hlines hline hmatch hcause =>
    have hrecorded : s.cause ≠ [] := by
      rw [hcause]
      exact detail_ne_nil hprefixes hmatch
    rw [StderrTail.write, if_neg hrecorded, hstream, text_append]
    exact ⟨.found lines line (rest ++ p) rfl hlines hline hmatch hcause, rfl, rfl⟩

/-- The first line that starts with a prefix, among lines that have ended and others. -/
theorem find?_text (hlines : ∀ x ∈ lines, newline ∉ x ∧ startsWithCause causePrefixes (cut x) = false) :
    ((text lines rest).splitOn newline).find? (fun line => startsWithCause causePrefixes (cut line)) =
      (rest.splitOn newline).find? fun line => startsWithCause causePrefixes (cut line) := by
  rw [splitOn_text fun x hx => (hlines x hx).1, List.find?_append, List.find?_eq_none.2, Option.none_or]
  intro x hx
  rw [(hlines x hx).2]
  exact Bool.false_ne_true

theorem firstCause_ended (hlines : ∀ x ∈ lines, newline ∉ x ∧ startsWithCause causePrefixes (cut x) = false)
    (hline : newline ∉ line) (hmatch : startsWithCause causePrefixes (cut line) = true) :
    firstCause causePrefixes (text (lines ++ [line]) rest) = truncateDetail (Utf8.trimSpace (cut line)) := by
  rw [← text_end, firstCause, find?_text hlines, List.splitOn_append_cons_self, List.splitOn_eq_singleton hline,
    List.singleton_append]
  simp only [List.find?_cons, hmatch]

theorem Scanned.causeLine (hprefixes : ∀ x ∈ s.causePrefixes, x ≠ []) (h : Scanned s q) :
    s.causeLine = firstCause s.causePrefixes q := by
  cases h with
  | searching lines line hstream hlines hline hcause hopen =>
    rw [hstream, firstCause, find?_text hlines, List.splitOn_eq_singleton hline, StderrTail.causeLine, hopen, hcause]
    by_cases hmatch : startsWithCause s.causePrefixes (cut line) = true
    · rw [if_pos ⟨rfl, hmatch⟩]
      simp only [List.find?_cons, hmatch]
    · rw [if_neg fun h => hmatch h.2]
      rw [Bool.not_eq_true] at hmatch
      simp only [List.find?_cons, hmatch, List.find?_nil]
  | found lines line rest hstream hlines hline hmatch hcause =>
    have hrecorded : s.cause ≠ [] := by
      rw [hcause]
      exact detail_ne_nil hprefixes hmatch
    rw [StderrTail.causeLine, if_neg fun h => hrecorded h.1, hcause, hstream, firstCause_ended hlines hline hmatch]

/-- A line that has ended stays the first one, whatever is written later. -/
theorem Scanned.firstCause_append (h : Scanned s q) (hline : line ∈ (q.splitOn newline).dropLast)
    (hmatch : startsWithCause s.causePrefixes (cut line) = true) (more : Bytes) :
    firstCause s.causePrefixes (q ++ more) = firstCause s.causePrefixes q := by
  cases h with
  | searching lines last hstream hlines hlast hcause hopen =>
    rw [hstream, splitOn_text fun x hx => (hlines x hx).1, List.splitOn_eq_singleton hlast, List.dropLast_concat] at hline
    rw [(hlines line hline).2] at hmatch
    cases hmatch
  | found lines first rest hstream hlines hfirst hmatches hcause =>
    rw [hstream, text_append, firstCause_ended hlines hfirst hmatches, firstCause_ended hlines hfirst hmatches]

end Scanning

/-! ## Whole runs -/

/-- The tail is the end of the stream. -/
theorem TailBuffer.write_data {b : TailBuffer} {q p : Bytes} (h : b.data = q.rtake b.limit) :
    (b.write p).data = (q ++ p).rtake b.limit ∧ (b.write p).limit = b.limit := by
  have hdata : b.data ++ p = (q ++ p).drop (q.length - b.limit) := by
    rw [h, List.rtake, List.drop_append_of_le_length (by omega)]
  have hlength : (b.data ++ p).length = q.length + p.length - (q.length - b.limit) := by
    rw [hdata, List.length_drop, List.length_append]
  have hwrite : (b.write p).data = (b.data ++ p).drop ((b.data ++ p).length - b.limit) ∧ (b.write p).limit = b.limit := by
    rw [TailBuffer.write]
    by_cases hlong : (b.data ++ p).length > b.limit
    · rw [if_pos hlong]
      exact ⟨rfl, rfl⟩
    · rw [if_neg hlong, Nat.sub_eq_zero_of_le (by omega), List.drop_zero]
      exact ⟨rfl, rfl⟩
  refine ⟨?_, hwrite.2⟩
  rw [hwrite.1, hlength, hdata, List.drop_drop, List.rtake, List.length_append]
  congr 1
  omega

def Chunk.stdoutBytes : Chunk → Bytes
  | .stdout p => p
  | .stderr _ => []

def Chunk.stderrBytes : Chunk → Bytes
  | .stdout _ => []
  | .stderr p => p

/-- What the chunks carry of each stream. -/
def stdoutOf (chunks : List Chunk) : Bytes := chunks.flatMap Chunk.stdoutBytes

def stderrOf (chunks : List Chunk) : Bytes := chunks.flatMap Chunk.stderrBytes

/-- What is kept is determined by the two streams. -/
structure Kept (causePrefixes : List Bytes) (o : ProcessOutput) (out err : Bytes) : Prop where
  stdout : o.stdout = out
  tail : o.stderr.tail.data = err.rtake o.stderr.tail.limit
  limit : o.stderr.tail.limit = processStderrTailBytes
  causePrefixes : o.stderr.causePrefixes = causePrefixes
  scanned : Scanned o.stderr err

section Runs

variable {causePrefixes : List Bytes} {o : ProcessOutput} {out err : Bytes}

theorem kept_new : Kept causePrefixes (newProcessOutput causePrefixes) [] [] :=
  ⟨rfl, rfl, rfl, rfl, .searching [] [] rfl (by simp) List.not_mem_nil rfl rfl⟩

theorem Kept.write (hprefixes : ∀ x ∈ causePrefixes, x ≠ []) (h : Kept causePrefixes o out err) (c : Chunk) :
    Kept causePrefixes (o.write c) (out ++ c.stdoutBytes) (err ++ c.stderrBytes) := by
  cases c with
  | stdout p =>
    rw [Chunk.stderrBytes, List.append_nil]
    exact ⟨congrArg (· ++ p) h.stdout, h.tail, h.limit, h.causePrefixes, h.scanned⟩
  | stderr p =>
    rw [Chunk.stdoutBytes, List.append_nil]
    obtain ⟨hscanned, hcauses, htail⟩ := @Scanned.write o.stderr p err (h.causePrefixes ▸ hprefixes) h.scanned
    obtain ⟨hdata, hlimit⟩ := @TailBuffer.write_data o.stderr.tail err p h.tail
    refine ⟨h.stdout, ?_, ?_, hcauses.trans h.causePrefixes, hscanned⟩
    · show (o.stderr.write p).tail.data = (err ++ p).rtake (o.stderr.write p).tail.limit
      rw [htail, hdata, hlimit]
    · show (o.stderr.write p).tail.limit = processStderrTailBytes
      rw [htail, hlimit, h.limit]

theorem Kept.writes (hprefixes : ∀ x ∈ causePrefixes, x ≠ []) (h : Kept causePrefixes o out err) (chunks : List Chunk) :
    Kept causePrefixes (chunks.foldl ProcessOutput.write o) (out ++ stdoutOf chunks) (err ++ stderrOf chunks) := by
  induction chunks generalizing o out err with
  | nil =>
    rw [stdoutOf, stderrOf, List.flatMap_nil, List.flatMap_nil, List.append_nil, List.append_nil]
    exact h
  | cons c chunks ih =>
    rw [stdoutOf, stderrOf, List.flatMap_cons, List.flatMap_cons, ← List.append_assoc, ← List.append_assoc]
    exact ih (h.write hprefixes c)

theorem Kept.causeLine (hprefixes : ∀ x ∈ causePrefixes, x ≠ []) (h : Kept causePrefixes o out err) :
    o.stderr.causeLine = firstCause causePrefixes err := by
  rw [h.scanned.causeLine (h.causePrefixes ▸ hprefixes), h.causePrefixes]

/-- The detail is read off what is kept. -/
theorem Kept.detail_eq {o' : ProcessOutput} (hprefixes : ∀ x ∈ causePrefixes, x ≠ []) (h : Kept causePrefixes o out err)
    (h' : Kept causePrefixes o' out err) : o.detail = o'.detail := by
  have hcause : o.stderr.causeLine = o'.stderr.causeLine := by rw [h.causeLine hprefixes, h'.causeLine hprefixes]
  have htail : o.stderr.tail.data = o'.stderr.tail.data := by rw [h.tail, h'.tail, h.limit, h'.limit]
  have hlast : o.lastStderrLine = o'.lastStderrLine := by rw [ProcessOutput.lastStderrLine, htail, ProcessOutput.lastStderrLine]
  have hfrom (line : Bytes) : o.detailFrom line = o'.detailFrom line := by
    rw [ProcessOutput.detailFrom, h.stdout, ProcessOutput.detailFrom, h'.stdout]
  rw [ProcessOutput.detail, hcause, hlast, hfrom, ProcessOutput.detail]

/-- What a collector holds after some chunks. -/
def collected (causePrefixes : List Bytes) (chunks : List Chunk) : ProcessOutput :=
  chunks.foldl ProcessOutput.write (newProcessOutput causePrefixes)

theorem kept_collected (hprefixes : ∀ x ∈ causePrefixes, x ≠ []) (chunks : List Chunk) :
    Kept causePrefixes (collected causePrefixes chunks) (stdoutOf chunks) (stderrOf chunks) :=
  kept_new.writes hprefixes chunks

/-- What is kept of standard error, and the detail, depend on the streams and not on the chunks: the tail is the
end of the stream, and the cause is its first line that starts with a prefix, as if all of it had come at once. A line
that has ended stays the cause; one that has not is reported as far as it goes. -/
theorem detail_independent_of_chunks (hprefixes : ∀ x ∈ causePrefixes, x ≠ []) (chunks : List Chunk) :
    (collected causePrefixes chunks).stderr.tail.data = (stderrOf chunks).rtake processStderrTailBytes ∧
    (collected causePrefixes chunks).stderr.causeLine =
      ((newProcessOutput causePrefixes).stderr.write (stderrOf chunks)).causeLine ∧
    (collected causePrefixes chunks).stderr.causeLine = firstCause causePrefixes (stderrOf chunks) ∧
    (∀ line ∈ ((stderrOf chunks).splitOn newline).dropLast, startsWithCause causePrefixes (cut line) = true →
      ∀ more, (collected causePrefixes (chunks ++ more)).stderr.causeLine = (collected causePrefixes chunks).stderr.causeLine) ∧
    ∀ chunks', stdoutOf chunks' = stdoutOf chunks → stderrOf chunks' = stderrOf chunks →
      (collected causePrefixes chunks').detail = (collected causePrefixes chunks).detail := by
  have hkept := kept_collected hprefixes chunks
  refine ⟨?_, ?_, hkept.causeLine hprefixes, fun line hline hmatch more => ?_, fun chunks' hout herr => ?_⟩
  · rw [hkept.tail, hkept.limit]
  · have honce := kept_new.write hprefixes (.stderr (stderrOf chunks))
    exact (hkept.causeLine hprefixes).trans (honce.causeLine hprefixes).symm
  · have happend : stderrOf (chunks ++ more) = stderrOf chunks ++ stderrOf more := List.flatMap_append
    have hscanned := hkept.scanned
    rw [(kept_collected hprefixes (chunks ++ more)).causeLine hprefixes, hkept.causeLine hprefixes, happend]
    rw [← hkept.causePrefixes] at hmatch ⊢
    exact hscanned.firstCause_append hline hmatch (stderrOf more)
  · have hkept' := kept_collected hprefixes chunks'
    rw [hout, herr] at hkept'
    exact hkept'.detail_eq hprefixes hkept

/-- A prefix that arrives in two chunks, with standard output in between. -/
def splitPrefix : List Chunk :=
  [.stderr (literal "starting\nnsen"), .stdout (literal "ok"), .stderr (literal "ter: denied\nnsenter: b")]

theorem detail_independent_of_chunks_sample :
    (collected [literal "nsenter:"] splitPrefix).stderr.causeLine = literal "nsenter: denied" ∧
    ∀ more, (collected [literal "nsenter:"] (splitPrefix ++ more)).stderr.causeLine = literal "nsenter: denied" := by
  have hprefixes : ∀ x ∈ [literal "nsenter:"], x ≠ [] := by simp [literal]
  obtain ⟨-, -, hcause, hstays, -⟩ := detail_independent_of_chunks hprefixes splitPrefix
  have hfirst : firstCause [literal "nsenter:"] (stderrOf splitPrefix) = literal "nsenter: denied" := by decide +kernel
  rw [hfirst] at hcause
  refine ⟨hcause, fun more => ?_⟩
  rw [hstays (literal "nsenter: denied") (by decide +kernel) (by decide +kernel) more, hcause]

end Runs

end ProcessDetail
