import Galay.Http2.Hpack.Decoder
import Mathlib.Data.List.Induction

/-!
# The request target of a header block

`decodeRequestTarget` is `decode`, with the values of four fields in the place of the list.
-/

namespace Galay.Http2

namespace HpackDecoder

/-- The value of the last field of a name, empty if there is none. -/
def lastValue (name : Bytes) (fields : List Http2HeaderField) : Bytes :=
  ((fields.filter (·.name = name)).getLast?.map (·.value)).getD []

theorem lastValue_snoc (name : Bytes) (fields : List Http2HeaderField) (field : Http2HeaderField) :
    lastValue name (fields ++ [field]) =
      if field.name = name then field.value else lastValue name fields := by
  unfold lastValue
  rw [List.filter_append]
  by_cases h : field.name = name
  · simp [h]
  simp [h]

variable (fields : List Http2HeaderField)

/-- The target of a list of fields. -/
def targetOf : RequestTarget :=
  fields.foldl RequestTarget.record {}

theorem targetOf_snoc (field : Http2HeaderField) :
    targetOf (fields ++ [field]) = (targetOf fields).record field :=
  List.foldl_append

theorem targetOf_eq :
    targetOf fields =
      { method := lastValue (ascii ":method") fields
        path := lastValue (ascii ":path") fields
        ifNoneMatch := lastValue (ascii "if-none-match") fields
        range := lastValue (ascii "range") fields } := by
  induction fields using List.reverseRecOn with
  | nil => rfl
  | append_singleton fields field ih =>
  -- the four names differ, so the order of the tests does not matter
  have h1 : ascii ":method" ≠ ascii ":path" := by decide
  have h2 : ascii ":method" ≠ ascii "if-none-match" := by decide
  have h3 : ascii ":method" ≠ ascii "range" := by decide
  have h4 : ascii ":path" ≠ ascii "if-none-match" := by decide
  have h5 : ascii ":path" ≠ ascii "range" := by decide
  have h6 : ascii "if-none-match" ≠ ascii "range" := by decide
  simp only [targetOf_snoc, lastValue_snoc, ih, RequestTarget.record]
  by_cases hmethod : field.name = ascii ":method"
  · simp [hmethod, h1, h2, h3]
  by_cases hpath : field.name = ascii ":path"
  · simp [hpath, h1.symm, h4, h5]
  by_cases hmatch : field.name = ascii "if-none-match"
  · simp [hmatch, h2.symm, h4.symm, h6]
  simp [hmethod, hpath, hmatch]
  split <;> rfl

variable {fields}

/-- The two loops run side by side, with the target of the fields so far. -/
theorem decodeRequestTargetLoop_eq (rounds : Nat) (dec : HpackDecoder) (data : Bytes)
    (headers : List Http2HeaderField) (headerListSize : Nat) :
    decodeRequestTargetLoop rounds dec data (targetOf headers) headerListSize =
      ((decodeLoop rounds dec data headers headerListSize).1.map targetOf,
        (decodeLoop rounds dec data headers headerListSize).2) := by
  induction rounds generalizing dec data headers headerListSize with
  | zero => cases data <;> rfl
  | succ rounds ih =>
  cases data with
  | nil => rfl
  | cons byte rest =>
  unfold decodeRequestTargetLoop decodeLoop
  simp only [← targetOf_snoc]
  split
  · split
    · rfl
    split
    · rfl
    split
    · rfl
    exact ih _ _ _ _
  split
  · split
    · rfl
    split
    · rfl
    exact ih _ _ _ _
  split
  · split
    · rfl
    split
    · rfl
    exact ih _ _ _ _
  split
  · rfl
  split
  · rfl
  exact ih _ _ _ _

theorem decodeRequestTarget_eq (dec : HpackDecoder) (data : Bytes) :
    dec.decodeRequestTarget data = ((dec.decode data).1.map targetOf, (dec.decode data).2) :=
  decodeRequestTargetLoop_eq data.length dec data [] 0

/-- Both decoders fail with the same error or both succeed; they leave the same decoder, and the
target has the last value of each of its four fields. -/
theorem decodeRequestTarget_agrees (dec : HpackDecoder) (data : Bytes) :
    (∃ error decoder, dec.decode data = (.error error, decoder) ∧
      dec.decodeRequestTarget data = (.error error, decoder)) ∨
    ∃ fields target decoder, dec.decode data = (.ok fields, decoder) ∧
      dec.decodeRequestTarget data = (.ok target, decoder) ∧
      target.method = lastValue (ascii ":method") fields ∧
      target.path = lastValue (ascii ":path") fields ∧
      target.ifNoneMatch = lastValue (ascii "if-none-match") fields ∧
      target.range = lastValue (ascii "range") fields := by
  rw [decodeRequestTarget_eq]
  rcases dec.decode data with ⟨error | fields, decoder⟩
  · exact .inl ⟨error, decoder, rfl, rfl⟩
  refine .inr ⟨fields, targetOf fields, decoder, rfl, rfl, ?_⟩
  rw [targetOf_eq]
  exact ⟨rfl, rfl, rfl, rfl⟩

end HpackDecoder

end Galay.Http2
