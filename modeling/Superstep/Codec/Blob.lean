import Superstep.Codec.Basic

/-!
# Blobs

A blob is a record behind its own total length, a 32-bit word that counts itself. Stores
keep one blob per record and hand it out as it is.
-/

namespace Superstep.Blob

variable {α : Type} [Codec α]

def headerLen : Nat := 4

/-- The length that a blob with the record `record` has. -/
def totalLen (record : Bytes) : Nat := headerLen + record.length

/-- The blob of `value`; refused when its length does not fit the length field. -/
def encode (value : α) : Except Error Bytes :=
  let record := Codec.encode value
  if totalLen record < wordLimit then .ok (BigEndian.encode headerLen (totalLen record) ++ record)
  else .error (.invalidArgument (.recordTooLong (totalLen record)))

/-- Makes a buffer the blob of `value`: it is emptied, takes the record behind room for the
length, and gets the length when the record is complete. When the length does not fit the length
field, the call fails and the buffer stays without it. -/
def overwrite (buffer : Bytes) (value : α) : Except Error Unit × Bytes :=
  let framed := buffer.take 0 ++ List.replicate headerLen 0 ++ Codec.encode value
  if framed.length < wordLimit then (.ok (), putWord32 framed (UInt32.ofNat framed.length))
  else (.error (.invalidArgument (.recordTooLong framed.length)), framed)

/-- The blob that a buffer becomes; an error when it becomes none. -/
def encodeOver (buffer : Bytes) (value : α) : Except Error Bytes :=
  (overwrite buffer value).1.map fun _ => (overwrite buffer value).2

def frontWord (bytes : Bytes) : Except Corruption Nat :=
  if headerLen ≤ bytes.length then .ok (BigEndian.decode (bytes.take headerLen))
  else .error (.shortWord bytes.length)

def declaredLen (blob : Bytes) : Except Corruption Nat := do
  let size ← frontWord blob
  if size < headerLen then throw (.blobTooSmall size) else return size

/-- The record of a blob that declares the length it has. -/
def body (blob : Bytes) : Except Corruption Bytes := do
  let size ← declaredLen blob
  if size = blob.length then return blob.drop headerLen
  else throw (.blobLength size blob.length)

def decode (blob : Bytes) : Except Corruption α := do
  Decoder.complete Codec.decode "blob" (← body blob)

/-- Decodes a blob over an existing value: whether that succeeded, and the value
afterwards. -/
def decodeInto (old : α) (blob : Bytes) : Except Corruption Unit × α :=
  match body blob with
  | .error e => (.error e, old)
  | .ok record =>
    let refill := Codec.decodeInto old record
    match refill.outcome with
    | .error e => (.error e, refill.target)
    | .ok _ => ((Decoder.finish "blob").run refill.rest |>.1, refill.target)

end Superstep.Blob
