import Galay.Http2.Base

/-!
# The HPACK static and dynamic tables (`protoc/http2_hpack.cc`)

The dynamic table is the ring buffer of the source: `head` is the slot after the newest entry,
`count` the number of live entries. Sizes and indices are naturals (`size_t`).
-/

namespace Galay.Http2

structure Http2HeaderField where
  name : Bytes
  value : Bytes
  deriving DecidableEq, Repr

namespace Http2HeaderField

/-- `Http2HeaderField{}`, the content of a released slot. -/
def empty : Http2HeaderField := ⟨[], []⟩

def size (field : Http2HeaderField) : Nat := field.name.length + field.value.length + 32

end Http2HeaderField

/-! ## The static table (RFC 7541 Appendix A) -/

namespace HpackStaticTable

def kStaticTableEntries : List Http2HeaderField := [
  ⟨ascii ":authority", ascii ""⟩, ⟨ascii ":method", ascii "GET"⟩, ⟨ascii ":method", ascii "POST"⟩,
  ⟨ascii ":path", ascii "/"⟩, ⟨ascii ":path", ascii "/index.html"⟩,
  ⟨ascii ":scheme", ascii "http"⟩, ⟨ascii ":scheme", ascii "https"⟩,
  ⟨ascii ":status", ascii "200"⟩, ⟨ascii ":status", ascii "204"⟩, ⟨ascii ":status", ascii "206"⟩,
  ⟨ascii ":status", ascii "304"⟩, ⟨ascii ":status", ascii "400"⟩, ⟨ascii ":status", ascii "404"⟩,
  ⟨ascii ":status", ascii "500"⟩, ⟨ascii "accept-charset", ascii ""⟩,
  ⟨ascii "accept-encoding", ascii "gzip, deflate"⟩, ⟨ascii "accept-language", ascii ""⟩,
  ⟨ascii "accept-ranges", ascii ""⟩, ⟨ascii "accept", ascii ""⟩,
  ⟨ascii "access-control-allow-origin", ascii ""⟩, ⟨ascii "age", ascii ""⟩,
  ⟨ascii "allow", ascii ""⟩, ⟨ascii "authorization", ascii ""⟩, ⟨ascii "cache-control", ascii ""⟩,
  ⟨ascii "content-disposition", ascii ""⟩, ⟨ascii "content-encoding", ascii ""⟩,
  ⟨ascii "content-language", ascii ""⟩, ⟨ascii "content-length", ascii ""⟩,
  ⟨ascii "content-location", ascii ""⟩, ⟨ascii "content-range", ascii ""⟩,
  ⟨ascii "content-type", ascii ""⟩, ⟨ascii "cookie", ascii ""⟩, ⟨ascii "date", ascii ""⟩,
  ⟨ascii "etag", ascii ""⟩, ⟨ascii "expect", ascii ""⟩, ⟨ascii "expires", ascii ""⟩,
  ⟨ascii "from", ascii ""⟩, ⟨ascii "host", ascii ""⟩, ⟨ascii "if-match", ascii ""⟩,
  ⟨ascii "if-modified-since", ascii ""⟩, ⟨ascii "if-none-match", ascii ""⟩,
  ⟨ascii "if-range", ascii ""⟩, ⟨ascii "if-unmodified-since", ascii ""⟩,
  ⟨ascii "last-modified", ascii ""⟩, ⟨ascii "link", ascii ""⟩, ⟨ascii "location", ascii ""⟩,
  ⟨ascii "max-forwards", ascii ""⟩, ⟨ascii "proxy-authenticate", ascii ""⟩,
  ⟨ascii "proxy-authorization", ascii ""⟩, ⟨ascii "range", ascii ""⟩, ⟨ascii "referer", ascii ""⟩,
  ⟨ascii "refresh", ascii ""⟩, ⟨ascii "retry-after", ascii ""⟩, ⟨ascii "server", ascii ""⟩,
  ⟨ascii "set-cookie", ascii ""⟩, ⟨ascii "strict-transport-security", ascii ""⟩,
  ⟨ascii "transfer-encoding", ascii ""⟩, ⟨ascii "user-agent", ascii ""⟩, ⟨ascii "vary", ascii ""⟩,
  ⟨ascii "via", ascii ""⟩, ⟨ascii "www-authenticate", ascii ""⟩]

def size : Nat := kStaticTableEntries.length

/-- Entry at a one-based index. -/
def get (index : Nat) : Option Http2HeaderField :=
  if index = 0 ∨ index > size then none else kStaticTableEntries[index - 1]?

/-- One-based indices of the entries of a name, in declaration order. -/
def nameToIndices (name : Bytes) : List Nat :=
  ((List.range size).filter fun i =>
    decide ((kStaticTableEntries.getD i .empty).name = name)).map (· + 1)

/-- The index of the field and whether only its name matched; index `0` when absent. -/
def find (name value : Bytes) : Nat × Bool :=
  let indices := nameToIndices name
  match indices with
  | [] => (0, false)
  | first :: _ =>
    match indices.find? fun i =>
      decide ((kStaticTableEntries.getD (i - 1) .empty).value = value) with
    | some index => (index, false)
    | none => (first, true)

end HpackStaticTable

/-! ## The dynamic table -/

structure HpackDynamicTable where
  ring : List Http2HeaderField := []
  head : Nat := 0
  count : Nat := 0
  maxSize : Nat := kDefaultHeaderTableSize
  currentSize : Nat := 0
  deriving DecidableEq, Repr

namespace HpackDynamicTable

variable (t : HpackDynamicTable)

def slot (pos : Nat) : Http2HeaderField := t.ring.getD pos .empty

/-- The slot of the entry of index `i`; index `0` is the newest entry. -/
def position (i : Nat) : Nat :=
  (t.head + t.ring.length - 1 - i) % t.ring.length

def clear : HpackDynamicTable :=
  { t with ring := [], head := 0, count := 0, currentSize := 0 }

def evict : HpackDynamicTable :=
  if t.count = 0 then t
  else
    let oldest := (t.head + t.ring.length - t.count) % t.ring.length
    { t with
      currentSize := t.currentSize - (t.slot oldest).size
      ring := t.ring.set oldest .empty
      count := t.count - 1 }

/-- The loop `while (m_current_size + reserve > m_max_size) evict()`. Each round removes an
entry, so `count` rounds are enough (`HpackDynamicTable.WF.evictWhile_done`). -/
def evictWhile (reserve : Nat) : Nat → HpackDynamicTable → HpackDynamicTable
  | 0, t => t
  | rounds + 1, t =>
    if t.currentSize + reserve > t.maxSize then evictWhile reserve rounds t.evict else t

variable (field : Http2HeaderField)

/-- Store the field in the free slot at `head`. -/
def overwrite : HpackDynamicTable :=
  { t with
    ring := t.ring.set t.head field
    head := (t.head + 1) % t.ring.length
    count := t.count + 1
    currentSize := t.currentSize + field.size }

/-- Move to a ring of twice the capacity: the field in slot `0`, the old entries after it,
newest first. -/
def grow : HpackDynamicTable :=
  let newCap := if t.count = 0 then 8 else t.count * 2
  let old := (List.range t.count).map fun i => t.slot (t.position i)
  { t with
    ring := field :: old ++ List.replicate (newCap - 1 - t.count) .empty
    head := (t.count + 1) % newCap
    count := t.count + 1
    currentSize := t.currentSize + field.size }

def add : HpackDynamicTable :=
  if field.size > t.maxSize then t.clear
  else
    let t := t.evictWhile field.size t.count
    if t.count < t.ring.length then t.overwrite field else t.grow field

def get (index : Nat) : Option Http2HeaderField :=
  if index ≥ t.count then none else some (t.slot (t.position index))

/-- The scan of `find`: `i` entries are done, `pos` is the slot of entry `i`, `nameMatch` is one
more than the first index that matched by name, `0` when there is none. -/
def findLoop (t : HpackDynamicTable) (name value : Bytes) :
    (remaining i pos nameMatch : Nat) → Option (Nat × Bool)
  | 0, _, _, nameMatch => if nameMatch > 0 then some (nameMatch - 1, true) else none
  | remaining + 1, i, pos, nameMatch =>
    let entry := t.slot pos
    let next := if pos = 0 then t.ring.length - 1 else pos - 1
    if entry.name = name then
      if entry.value = value then some (i, false)
      else findLoop t name value remaining (i + 1) next (if nameMatch = 0 then i + 1 else nameMatch)
    else findLoop t name value remaining (i + 1) next nameMatch

/-- The index of the field and whether only its name matched; `none` stands for `SIZE_MAX`. -/
def find (name value : Bytes) : Option (Nat × Bool) :=
  if t.count = 0 then none else t.findLoop name value t.count 0 (t.position 0) 0

def setMaxSize (maxSize : Nat) : HpackDynamicTable :=
  { t with maxSize := maxSize }.evictWhile 0 t.count

end HpackDynamicTable

end Galay.Http2
