import Pkgly.Storage.DynStorage

/-!
# Uploads to a local disk

`writeLocalStream` appends the chunks of a request to the upload file, through a buffer
(`BufWriter`), and brings the upload state up to date after each of them.  A stream may end with an
error; then the function returns without the flush at its end, and the buffer is dropped with what
it holds.
-/

namespace Pkgly.Docker

/-- What the registry uses of a `BufWriter`: bytes are written out when the buffer is full, and in
their order. -/
structure BufWriter where
  /-- `write_all`: what is written out, and what the buffer then holds. -/
  writeAll : (buffer chunk : Bytes) → Bytes × Bytes
  append_writeAll : ∀ buffer chunk,
    (writeAll buffer chunk).1 ++ (writeAll buffer chunk).2 = buffer ++ chunk

/-- `UploadState`, with the bytes that its hash has seen. -/
structure UploadState where
  hashed : Bytes
  length : ℕ
deriving DecidableEq

def UploadState.update (state : UploadState) (chunk : Bytes) : UploadState :=
  if chunk.isEmpty then state else ⟨state.hashed ++ chunk, state.length + chunk.length⟩

/-- An upload: the content of its file and its state. -/
structure LocalUpload where
  file : Bytes
  state : UploadState
deriving DecidableEq

/-- The chunks of a request, and whether an error follows them. -/
structure ChunkStream where
  chunks : List Bytes
  fails : Bool
deriving DecidableEq

structure OpenUpload where
  upload : LocalUpload
  buffer : Bytes
deriving DecidableEq

/-- One chunk of `stream_to_writer`. -/
def writeChunk (writer : BufWriter) (u : OpenUpload) (chunk : Bytes) : OpenUpload :=
  if chunk.isEmpty then u
  else
    let (written, buffer) := writer.writeAll u.buffer chunk
    ⟨⟨u.upload.file ++ written, u.upload.state.update chunk⟩, buffer⟩

/-- `stream_to_writer`; the flush comes after the last chunk, and not after an error. -/
def streamToWriter (writer : BufWriter) (u : OpenUpload) (stream : ChunkStream) :
    OpenUpload × Except Unit Unit :=
  let u := stream.chunks.foldl (writeChunk writer) u
  if stream.fails then (u, .error ())
  else (⟨⟨u.upload.file ++ u.buffer, u.upload.state⟩, []⟩, .ok ())

def writeLocalStream (writer : BufWriter) (u : LocalUpload) (stream : ChunkStream) :
    LocalUpload × Except Unit ℕ :=
  match streamToWriter writer ⟨u, []⟩ stream with
  | (u, .error e) => (u.upload, .error e)
  | (u, .ok ()) => (u.upload, .ok u.upload.state.length)

def writeLocalStreams (writer : BufWriter) (u : LocalUpload) (streams : List ChunkStream) :
    LocalUpload :=
  streams.foldl (fun u stream => (writeLocalStream writer u stream).1) u

def LocalUpload.begun : LocalUpload := ⟨[], ⟨[], 0⟩⟩

def BufWriter.held (writer : BufWriter) (chunks : List Bytes) : Bytes :=
  (chunks.filter fun chunk => !chunk.isEmpty).foldl
    (fun buffer chunk => (writer.writeAll buffer chunk).2) []

end Pkgly.Docker
