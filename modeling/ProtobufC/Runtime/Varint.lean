import ProtobufC.Runtime.Message

/-! # The scalar encodings of `protobuf-c.c`

The `_size` functions, the `_pack` functions of scalars and the `parse_` functions.  A `_pack`
function that writes `out[0]`, `out[1]`, ... and returns the number of bytes written is the list of
these bytes.  A `parse_` function is given the bytes it may read; a byte behind them reads as 0,
which the callers rule out.
-/

namespace ProtobufC
set_option autoImplicit false

/-! ## Sizes -/

/-- `get_tag_size` -/
def getTagSize (number : UInt32) : ℕ :=
  if number < (1 : UInt32) <<< 4 then 1
  else if number < (1 : UInt32) <<< 11 then 2
  else if number < (1 : UInt32) <<< 18 then 3
  else if number < (1 : UInt32) <<< 25 then 4
  else 5

/-- `uint32_size` -/
def uint32Size (v : UInt32) : ℕ :=
  if v < (1 : UInt32) <<< 7 then 1
  else if v < (1 : UInt32) <<< 14 then 2
  else if v < (1 : UInt32) <<< 21 then 3
  else if v < (1 : UInt32) <<< 28 then 4
  else 5

/-- `int32_size` -/
def int32Size (v : Int32) : ℕ :=
  if v < 0 then 10
  else if v < (1 : Int32) <<< 7 then 1
  else if v < (1 : Int32) <<< 14 then 2
  else if v < (1 : Int32) <<< 21 then 3
  else if v < (1 : Int32) <<< 28 then 4
  else 5

/-- `zigzag32` -/
def zigzag32 (v : Int32) : UInt32 :=
  if v < 0 then (-v).toUInt32 * 2 - 1 else (v * 2).toUInt32

/-- `sint32_size` -/
def sint32Size (v : Int32) : ℕ := uint32Size (zigzag32 v)

/-- `uint64_size` -/
def uint64Size (v : UInt64) : ℕ :=
  let upper_v := (v >>> 32).toUInt32
  if upper_v = 0 then uint32Size v.toUInt32
  else if upper_v < (1 : UInt32) <<< 3 then 5
  else if upper_v < (1 : UInt32) <<< 10 then 6
  else if upper_v < (1 : UInt32) <<< 17 then 7
  else if upper_v < (1 : UInt32) <<< 24 then 8
  else if upper_v < (1 : UInt32) <<< 31 then 9
  else 10

/-- `zigzag64` -/
def zigzag64 (v : Int64) : UInt64 :=
  if v < 0 then (-v).toUInt64 * 2 - 1 else (v * 2).toUInt64

/-- `sint64_size` -/
def sint64Size (v : Int64) : ℕ := uint64Size (zigzag64 v)

/-! ## Packing -/

/-- `uint32_pack` -/
def uint32Pack (value : UInt32) : List UInt8 :=
  if value ≥ 0x80 then
    (value ||| 0x80).toUInt8 ::
      let value := value >>> 7
      if value ≥ 0x80 then
        (value ||| 0x80).toUInt8 ::
          let value := value >>> 7
          if value ≥ 0x80 then
            (value ||| 0x80).toUInt8 ::
              let value := value >>> 7
              if value ≥ 0x80 then
                [(value ||| 0x80).toUInt8, (value >>> 7).toUInt8]
              else [value.toUInt8]
          else [value.toUInt8]
      else [value.toUInt8]
  else [value.toUInt8]

/-- `int32_pack` -/
def int32Pack (value : Int32) : List UInt8 :=
  if value < 0 then
    [(value ||| 0x80).toUInt32.toUInt8, ((value >>> 7) ||| 0x80).toUInt32.toUInt8,
     ((value >>> 14) ||| 0x80).toUInt32.toUInt8, ((value >>> 21) ||| 0x80).toUInt32.toUInt8,
     ((value >>> 28) ||| 0x80).toUInt32.toUInt8, 0xff, 0xff, 0xff, 0xff, 0x01]
  else uint32Pack value.toUInt32

/-- `sint32_pack` -/
def sint32Pack (value : Int32) : List UInt8 := uint32Pack (zigzag32 value)

/-- The loop of `uint64_pack`, which a 29-bit `hi` leaves within five rounds. -/
def uint64PackLoop : ℕ → UInt32 → List UInt8
  | 0, hi => [hi.toUInt8]
  | fuel + 1, hi =>
      if hi ≥ 128 then (hi ||| 0x80).toUInt8 :: uint64PackLoop fuel (hi >>> 7) else [hi.toUInt8]

/-- `uint64_pack` -/
def uint64Pack (value : UInt64) : List UInt8 :=
  let hi := (value >>> 32).toUInt32
  let lo := value.toUInt32
  if hi = 0 then uint32Pack lo
  else
    [(lo ||| 0x80).toUInt8, ((lo >>> 7) ||| 0x80).toUInt8, ((lo >>> 14) ||| 0x80).toUInt8,
     ((lo >>> 21) ||| 0x80).toUInt8] ++
      if hi < 8 then [((hi <<< 4) ||| (lo >>> 28)).toUInt8]
      else (((hi &&& 7) <<< 4) ||| (lo >>> 28) ||| 0x80).toUInt8 :: uint64PackLoop 5 (hi >>> 3)

/-- `sint64_pack` -/
def sint64Pack (value : Int64) : List UInt8 := uint64Pack (zigzag64 value)

/-- `fixed32_pack` -/
def fixed32Pack (value : UInt32) : List UInt8 :=
  [value.toUInt8, (value >>> 8).toUInt8, (value >>> 16).toUInt8, (value >>> 24).toUInt8]

/-- `fixed64_pack` -/
def fixed64Pack (value : UInt64) : List UInt8 :=
  fixed32Pack value.toUInt32 ++ fixed32Pack (value >>> 32).toUInt32

/-- `boolean_pack` -/
def booleanPack (value : Int32) : List UInt8 := [if value ≠ 0 then 1 else 0]

/-- `tag_pack`; the wire type is added by `orFirst`. -/
def tagPack (id : UInt32) : List UInt8 :=
  if id < (1 : UInt32) <<< (32 - 3) then uint32Pack (id <<< 3) else uint64Pack (id.toUInt64 <<< 3)

/-- `out[0] |= code` -/
def orFirst (bytes : List UInt8) (code : UInt8) : List UInt8 :=
  match bytes with
  | [] => []
  | b :: bs => (b ||| code) :: bs

/-! ## Parsing -/

/-- `data[i]` -/
def byteAt (data : List UInt8) (i : ℕ) : UInt8 := data.getD i 0

/-- `parse_uint32 (len, data)`, where `data` holds `len` bytes. -/
def parseUint32 (data : List UInt8) : UInt32 :=
  let len := data.length
  let digit (i : ℕ) : UInt32 := (byteAt data i &&& 0x7f).toUInt32
  let rv := digit 0
  if len > 1 then
    let rv := rv ||| digit 1 <<< 7
    if len > 2 then
      let rv := rv ||| digit 2 <<< 14
      if len > 3 then
        let rv := rv ||| digit 3 <<< 21
        if len > 4 then rv ||| (byteAt data 4).toUInt32 <<< 28 else rv
      else rv
    else rv
  else rv

/-- `parse_int32` -/
def parseInt32 (data : List UInt8) : UInt32 := parseUint32 data

/-- `unzigzag32` -/
def unzigzag32 (v : UInt32) : Int32 :=
  if v &&& 1 ≠ 0 then (-(v >>> 1) - 1).toInt32 else (v >>> 1).toInt32

/-- `parse_fixed_uint32` -/
def parseFixedUint32 (data : List UInt8) : UInt32 :=
  (byteAt data 0).toUInt32 ||| (byteAt data 1).toUInt32 <<< 8 |||
    (byteAt data 2).toUInt32 <<< 16 ||| (byteAt data 3).toUInt32 <<< 24

/-- The loop of `parse_uint64` over the bytes from `data[4]` on. -/
def parseUint64Loop : List UInt8 → ℕ → UInt64 → UInt64
  | [], _, rv => rv
  | b :: bs, shift, rv =>
      parseUint64Loop bs (shift + 7) (rv ||| (b &&& 0x7f).toUInt64 <<< UInt64.ofNat shift)

/-- `parse_uint64 (len, data)`, where `data` holds `len` bytes. -/
def parseUint64 (data : List UInt8) : UInt64 :=
  if data.length < 5 then (parseUint32 data).toUInt64
  else
    let digit (i : ℕ) : UInt64 := (byteAt data i &&& 0x7f).toUInt64
    parseUint64Loop (data.drop 4) 28
      (digit 0 ||| digit 1 <<< 7 ||| digit 2 <<< 14 ||| digit 3 <<< 21)

/-- `unzigzag64` -/
def unzigzag64 (v : UInt64) : Int64 :=
  if v &&& 1 ≠ 0 then (-(v >>> 1) - 1).toInt64 else (v >>> 1).toInt64

/-- `parse_fixed_uint64` -/
def parseFixedUint64 (data : List UInt8) : UInt64 :=
  (parseFixedUint32 data).toUInt64 ||| (parseFixedUint32 (data.drop 4)).toUInt64 <<< 32

/-- `parse_boolean (len, data)`, where `data` holds `len` bytes. -/
def parseBoolean (data : List UInt8) : Int32 := if data.any (fun b => b &&& 0x7f ≠ 0) then 1 else 0

/-! ## Scanning -/

/-- The loop of `parse_tag_and_wiretype`, `rounds` bytes before `max_rv`. -/
def parseTagLoop : ℕ → List UInt8 → ℕ → ℕ → UInt32 → Option (ℕ × UInt32)
  | rounds + 1, b :: bs, rv, shift, tag =>
      if b &&& 0x80 ≠ 0 then
        parseTagLoop rounds bs (rv + 1) (shift + 7)
          (tag ||| (b &&& 0x7f).toUInt32 <<< UInt32.ofNat shift)
      else some (rv + 1, tag ||| b.toUInt32 <<< UInt32.ofNat shift)
  | _, _, _, _, _ => none

/-- `parse_tag_and_wiretype (len, data, &tag, &wiretype)`, where `data` holds `len` bytes, at least
one: the bytes used, the tag and the wire type, or `none` when it returns 0. -/
def parseTagAndWiretype (data : List UInt8) : Option (ℕ × UInt32 × WireType) :=
  let max_rv := if data.length > 5 then 5 else data.length
  let tag := ((byteAt data 0 &&& 0x7f) >>> 3).toUInt32
  let wiretype := WireType.ofByte (byteAt data 0)
  if byteAt data 0 &&& 0x80 = 0 then some (1, tag, wiretype)
  else (parseTagLoop (max_rv - 1) (data.drop 1) 1 4 tag).map fun (rv, tag) => (rv, tag, wiretype)

/-- `for (i = 0; i < max; i++) if ((data[i] & 0x80) == 0) break;`, and `i` where it broke off. -/
def findLastDigit (max : ℕ) (data : List UInt8) : Option ℕ :=
  (data.take max).findIdx? fun b => b &&& 0x80 = 0

/-- `scan_varint (len, data)`, where `data` holds `len` bytes. -/
def scanVarint (data : List UInt8) : ℕ :=
  match findLastDigit 10 data with
  | some i => i + 1
  | none => 0

/-- The loop of `scan_length_prefixed_data`: `i` and `val` where it broke off. -/
def scanLengthLoop : ℕ → List UInt8 → ℕ → ℕ → UInt32 → Option (ℕ × UInt32)
  | rounds + 1, b :: bs, i, shift, val =>
      let val := val ||| (b &&& 0x7f).toUInt32 <<< UInt32.ofNat shift
      if b &&& 0x80 = 0 then some (i, val) else scanLengthLoop rounds bs (i + 1) (shift + 7) val
  | _, _, _, _, _ => none

/-- `scan_length_prefixed_data (len, data, &prefix_len)`, where `data` holds `len` bytes: the value
returned and the length of the prefix.  The sum `hdr_len + val` is a 32-bit one. -/
def scanLengthPrefixedData (data : List UInt8) : UInt32 × ℕ :=
  let hdr_max := if data.length < 5 then data.length else 5
  match scanLengthLoop hdr_max data 0 0 0 with
  | none => (0, 0)
  | some (i, val) =>
      let hdr_len := i + 1
      if (UInt32.ofNat hdr_len + val).toNat > data.length then (0, hdr_len)
      else (UInt32.ofNat hdr_len + val, hdr_len)

/-- `max_b128_numbers (len, data)`, where `data` holds `len` bytes. -/
def maxB128Numbers (data : List UInt8) : ℕ := data.countP fun b => b &&& 0x80 = 0

end ProtobufC
