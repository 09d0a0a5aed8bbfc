import Pkgly.Docker.LocalStream

/-!
# The progress of an upload to a local disk

The upload state has the length of the upload file, and has hashed its bytes, after every request
exactly if no stream fails while the buffer holds something (`progress_iff`).  A stream that fails
after a chunk that fits into the buffer leaves the state ahead of the file
(`progress_fails_of_fits`, `not_progress_failed`).
-/

namespace Pkgly.Docker

variable {writer : BufWriter} {u : LocalUpload} {stream : ChunkStream}

def LocalUpload.InStep (u : LocalUpload) : Prop :=
  u.state.length = u.file.length ∧ u.state.hashed = u.file

instance : Decidable u.InStep := by
  unfold LocalUpload.InStep
  infer_instance

structure OpenUpload.InStep (u : OpenUpload) : Prop where
  length : u.upload.state.length = (u.upload.file ++ u.buffer).length
  hashed : u.upload.state.hashed = u.upload.file ++ u.buffer

/-! ### One request -/

theorem inStep_writeChunk {u : OpenUpload} (h : u.InStep) (chunk : Bytes) :
    (writeChunk writer u chunk).InStep := by
  unfold writeChunk
  by_cases hempty : chunk.isEmpty = true
  · rw [if_pos hempty]
    exact h
  · have hwritten := writer.append_writeAll u.buffer chunk
    have hstate : u.upload.state.update chunk =
        ⟨u.upload.state.hashed ++ chunk, u.upload.state.length + chunk.length⟩ := if_neg hempty
    rw [if_neg hempty]
    dsimp only
    rw [hstate]
    constructor
    · dsimp only
      rw [List.append_assoc, hwritten, h.length, ← List.append_assoc]
      exact List.length_append.symm
    · dsimp only
      rw [List.append_assoc, hwritten, h.hashed, List.append_assoc]

theorem inStep_foldl_writeChunk {u : OpenUpload} (h : u.InStep) (chunks : List Bytes) :
    (chunks.foldl (writeChunk writer) u).InStep := by
  induction chunks generalizing u with
  | nil => exact h
  | cons chunk chunks ih => exact ih (inStep_writeChunk h chunk)

theorem buffer_foldl_writeChunk (u : OpenUpload) (chunks : List Bytes) :
    (chunks.foldl (writeChunk writer) u).buffer =
      (chunks.filter fun chunk => !chunk.isEmpty).foldl
        (fun buffer chunk => (writer.writeAll buffer chunk).2) u.buffer := by
  induction chunks generalizing u with
  | nil => rfl
  | cons chunk chunks ih =>
    rw [List.foldl_cons, ih]
    by_cases hempty : chunk.isEmpty = true
    · simp_all [writeChunk, List.filter_cons_of_neg]
    simp_all [writeChunk, List.filter_cons_of_pos, List.foldl_cons]

theorem inStep_writeLocalStream_iff (h : u.InStep) :
    (writeLocalStream writer u stream).1.InStep ↔
      (stream.fails = true → writer.held stream.chunks = []) := by
  have hopen : OpenUpload.InStep ⟨u, []⟩ := by
    constructor
    · rw [List.append_nil]
      exact h.1
    · rw [List.append_nil]
      exact h.2
  have hend : (stream.chunks.foldl (writeChunk writer) ⟨u, []⟩).InStep :=
    inStep_foldl_writeChunk hopen stream.chunks
  have hbuffer : (stream.chunks.foldl (writeChunk writer) ⟨u, []⟩).buffer =
      writer.held stream.chunks := buffer_foldl_writeChunk ⟨u, []⟩ stream.chunks
  unfold writeLocalStream streamToWriter
  generalize stream.chunks.foldl (writeChunk writer) ⟨u, []⟩ = v at hend hbuffer ⊢
  dsimp only
  by_cases hfails : stream.fails = true
  · rw [if_pos hfails]
    dsimp only
    constructor
    · rintro ⟨hlength, -⟩ -
      have hsum := hend.length
      grind [List.length_append, List.eq_nil_iff_length_eq_zero]
    · intro hempty
      rw [← hbuffer] at hempty
      have hlength := hend.length
      have hhashed := hend.hashed
      rw [hempty hfails, List.append_nil] at hlength hhashed
      exact ⟨hlength, hhashed⟩
  · rw [if_neg hfails]
    exact ⟨fun _ hyes => absurd hyes hfails, fun _ => ⟨hend.length, hend.hashed⟩⟩

/-! ### All requests -/

theorem writeLocalStreams_cons (streams : List ChunkStream) :
    writeLocalStreams writer u (stream :: streams) =
      writeLocalStreams writer (writeLocalStream writer u stream).1 streams := rfl

theorem inStep_take_iff (h : u.InStep) (streams : List ChunkStream) :
    (∀ n, (writeLocalStreams writer u (streams.take n)).InStep) ↔
      ∀ stream ∈ streams, stream.fails = true → writer.held stream.chunks = [] := by
  induction streams generalizing u with
  | nil =>
    aesop
  | cons stream streams ih =>
    rw [List.forall_mem_cons, ← inStep_writeLocalStream_iff h]
    constructor
    · intro hall
      have hfirst := hall 1
      rw [List.take_succ_cons, List.take_zero, writeLocalStreams_cons] at hfirst
      refine ⟨hfirst, (ih hfirst).mp fun n => ?_⟩
      have hnext := hall (n + 1)
      rw [List.take_succ_cons, writeLocalStreams_cons] at hnext
      exact hnext
    · rintro ⟨hfirst, hrest⟩ n
      cases n with
      | zero => exact h
      | succ n =>
        rw [List.take_succ_cons, writeLocalStreams_cons]
        exact (ih hfirst).mpr hrest n

/-- **Progress**: after every request of an upload its state is in step with its file, exactly if no
stream fails while the buffer holds something. -/
theorem progress_iff (writer : BufWriter) (streams : List ChunkStream) :
    (∀ n, (writeLocalStreams writer .begun (streams.take n)).InStep) ↔
      ∀ stream ∈ streams, stream.fails = true → writer.held stream.chunks = [] :=
  inStep_take_iff ⟨rfl, rfl⟩ streams

/-! ### Streams that fail -/

def BufWriter.Keeps (writer : BufWriter) (capacity : ℕ) : Prop :=
  ∀ buffer chunk, buffer.length + chunk.length ≤ capacity →
    writer.writeAll buffer chunk = ([], buffer ++ chunk)

theorem BufWriter.Keeps.held_eq {capacity : ℕ} (h : writer.Keeps capacity) {chunks : List Bytes}
    (hfits : chunks.flatten.length ≤ capacity) : writer.held chunks = chunks.flatten := by
  have hall : ∀ buffer : Bytes, buffer.length + chunks.flatten.length ≤ capacity →
      (chunks.filter fun chunk => !chunk.isEmpty).foldl
        (fun buffer chunk => (writer.writeAll buffer chunk).2) buffer =
      buffer ++ chunks.flatten := by
    clear hfits
    induction chunks with
    | nil =>
      intro buffer _
      exact (List.append_nil buffer).symm
    | cons chunk chunks ih =>
      intro buffer hbuffer
      rw [List.flatten_cons, List.length_append] at hbuffer
      by_cases hempty : chunk.isEmpty = true
      · grind
      · rw [Bool.not_eq_true] at hempty
        rw [List.filter_cons_of_pos (by rw [hempty]; rfl), List.foldl_cons,
          h buffer chunk (by omega)]
        grind
  exact hall [] (by rw [List.length_nil]; omega)

/-- A stream that fails after a chunk leaves the state ahead of the file, if all it has sent fits
into the buffer. -/
theorem progress_fails_of_fits {capacity : ℕ} (h : writer.Keeps capacity)
    (hfails : stream.fails = true) (hne : stream.chunks.flatten ≠ [])
    (hfits : stream.chunks.flatten.length ≤ capacity) :
    ¬ (writeLocalStream writer .begun stream).1.InStep := by
  have hbegun : LocalUpload.begun.InStep := ⟨rfl, rfl⟩
  rw [inStep_writeLocalStream_iff hbegun]
  intro hempty
  exact hne (h.held_eq hfits ▸ hempty hfails)

def uploadBuffer : BufWriter where
  writeAll buffer chunk :=
    if buffer.length + chunk.length ≤ 4 * 1024 * 1024 then ([], buffer ++ chunk)
    else (buffer ++ chunk, [])
  append_writeAll buffer chunk := by
    grind

theorem keeps_uploadBuffer : uploadBuffer.Keeps (4 * 1024 * 1024) := fun _ _ h => if_pos h

/-- One byte is sent, and then the connection breaks. -/
theorem not_progress_failed : ¬ ∀ (writer : BufWriter) (streams : List ChunkStream) (n : ℕ),
    (writeLocalStreams writer .begun (streams.take n)).InStep := by
  intro hall
  have hstep : (writeLocalStream uploadBuffer .begun ⟨[[1]], true⟩).1.InStep :=
    hall uploadBuffer [⟨[[1]], true⟩] 1
  exact progress_fails_of_fits keeps_uploadBuffer rfl (by decide) (by decide) hstep

end Pkgly.Docker
