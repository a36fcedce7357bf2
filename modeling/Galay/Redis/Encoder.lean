import Galay.Lib.ToChars
import Galay.Redis.ProtocolLemmas

/-!
# The encoder of commands (`galay-redis/protoc/redis_protocol.h`, `redis_protocol.cc`)

The overloads write their parts behind a string, `out`, which is empty where they return it. What is
reserved for the string does not change it and is left out.
-/

namespace Galay.Redis

open List
open Galay.Lib

/-- A part that a template takes: a text, or an integer, which is written in decimal. -/
inductive CommandPart
  | text (value : Bytes)
  | integral (value : Int)
  deriving DecidableEq, Repr

def CommandPart.bytes : CommandPart → Bytes
  | .text value => value
  | .integral value => signedNumeral value

namespace RespEncoder

/-- Thirty-two characters hold every size, so that `to_chars` does not fail. -/
def appendUnsignedDecimal (out : Bytes) (value : Nat) : Bytes := out ++ numeral 10 value

def appendBulkString (out value : Bytes) : Bytes :=
  let out := appendUnsignedDecimal (out ++ ascii "$") value.length
  out ++ CRLF ++ value ++ CRLF

def appendCommandPart (out : Bytes) : CommandPart → Bytes
  | .text value => appendBulkString out value
  | .integral value => appendBulkString out (signedNumeral value)

def buildCommandArgs (result : Bytes) : List CommandPart → Bytes
  | [] => result
  | first :: rest => buildCommandArgs (appendCommandPart result first) rest

def encodeInteger (value : Int64) : Bytes := ascii ":" ++ signedNumeral value.toInt ++ CRLF

def encodeBulkString (str : Bytes) : Bytes := appendBulkString [] str

def encodeArray (elements : List Bytes) : Bytes :=
  let result := appendUnsignedDecimal (ascii "*") elements.length ++ CRLF
  elements.foldl appendBulkString result

/-! ## All parts of a command -/

/-- `encodeCommand`, of an initializer list. -/
def encodeCommandParts (cmdParts : List Bytes) : Bytes :=
  if cmdParts.length = 0 then ascii "*0" ++ CRLF
  else
    let result := appendUnsignedDecimal (ascii "*") cmdParts.length ++ CRLF
    cmdParts.foldl appendBulkString result

/-- `encodeCommand`, the template for a container. -/
def encodeCommandContainer (cmdParts : List CommandPart) : Bytes :=
  if cmdParts.length = 0 then ascii "*0" ++ CRLF
  else
    let result := ascii "*" ++ numeral 10 cmdParts.length ++ CRLF
    cmdParts.foldl appendCommandPart result

/-- `append`, of a vector. -/
def appendParts (out : Bytes) (cmdParts : List Bytes) : Bytes :=
  if cmdParts = [] then out ++ (ascii "*0" ++ CRLF)
  else
    let out := appendUnsignedDecimal (out ++ ascii "*") cmdParts.length ++ CRLF
    cmdParts.foldl appendBulkString out

/-- `appendCommandFast`, of a vector. -/
def appendCommandFastParts (out : Bytes) (cmdParts : List Bytes) : Bytes :=
  if cmdParts = [] then out ++ (ascii "*0" ++ CRLF)
  else
    let out := appendUnsignedDecimal (out ++ ascii "*") cmdParts.length ++ CRLF
    cmdParts.foldl appendBulkString out

/-! ## A command and its arguments -/

/-- `append`, where the arguments are a vector, a span or an initializer list. -/
def append (out cmd : Bytes) (args : List Bytes) : Bytes :=
  let argCount := 1 + args.length
  let out := appendUnsignedDecimal (out ++ ascii "*") argCount ++ CRLF
  args.foldl appendBulkString (appendBulkString out cmd)

/-- `appendCommandFast`, where the arguments are a span, a vector or an initializer list. -/
def appendCommandFast (out cmd : Bytes) (args : List Bytes) : Bytes :=
  let argCount := 1 + args.length
  let out := appendUnsignedDecimal (out ++ ascii "*") argCount ++ CRLF
  args.foldl appendBulkString (appendBulkString out cmd)

/-- `encodeCommand`, where the arguments are an initializer list. -/
def encodeCommand (cmd : Bytes) (args : List Bytes) : Bytes :=
  let argCount := 1 + args.length
  let result := appendUnsignedDecimal (ascii "*") argCount ++ CRLF
  args.foldl appendBulkString (appendBulkString result cmd)

/-- `encodeCommand`, the template for a pack of arguments. -/
def encodeCommandPack (cmd : Bytes) (args : List CommandPart) : Bytes :=
  let argCount := 1 + args.length
  let result := ascii "*" ++ numeral 10 argCount ++ CRLF
  buildCommandArgs (appendBulkString result cmd) args

/-! ## One encoding -/

/-- The wire form of a bulk string. -/
def bulkString (value : Bytes) : Bytes :=
  0x24 :: (numeral 10 value.length ++ CRLF ++ (value ++ CRLF))

theorem appendBulkString_eq (out value : Bytes) :
    appendBulkString out value = out ++ bulkString value := by
  simp only [appendBulkString, appendUnsignedDecimal, bulkString, ascii, append_assoc]
  rfl

theorem foldl_appendBulkString (values : List Bytes) (out : Bytes) :
    values.foldl appendBulkString out = out ++ values.flatMap bulkString := by
  induction values generalizing out with
  | nil => rw [foldl_nil, flatMap_nil, append_nil]
  | cons value values ih =>
  rw [foldl_cons, ih, appendBulkString_eq, flatMap_cons, append_assoc]

theorem appendCommandPart_eq (out : Bytes) (part : CommandPart) :
    appendCommandPart out part = appendBulkString out part.bytes := by
  cases part <;> rfl

theorem foldl_appendCommandPart (parts : List CommandPart) (out : Bytes) :
    parts.foldl appendCommandPart out =
      (parts.map CommandPart.bytes).foldl appendBulkString out := by
  induction parts generalizing out with
  | nil => rfl
  | cons part parts ih =>
  rw [foldl_cons, ih, appendCommandPart_eq, map_cons, foldl_cons]

theorem buildCommandArgs_eq (parts : List CommandPart) (out : Bytes) :
    buildCommandArgs out parts = parts.foldl appendCommandPart out := by
  induction parts generalizing out with
  | nil => rfl
  | cons part parts ih => rw [buildCommandArgs, ih, foldl_cons]

theorem encodeArray_eq (elements : List Bytes) :
    encodeArray elements =
      0x2A :: (numeral 10 elements.length ++ CRLF ++ elements.flatMap bulkString) := by
  rw [encodeArray, foldl_appendBulkString]
  rfl

theorem appendParts_eq (out : Bytes) (cmdParts : List Bytes) :
    appendParts out cmdParts = out ++ encodeArray cmdParts := by
  rw [appendParts]
  split
  · next hempty =>
    rw [hempty]
    rfl
  rw [foldl_appendBulkString, encodeArray_eq, appendUnsignedDecimal]
  simp only [append_assoc]
  rfl

theorem appendCommandFastParts_eq (out : Bytes) (cmdParts : List Bytes) :
    appendCommandFastParts out cmdParts = out ++ encodeArray cmdParts := appendParts_eq out cmdParts

theorem encodeCommandParts_eq (cmdParts : List Bytes) :
    encodeCommandParts cmdParts = encodeArray cmdParts := by
  rw [encodeCommandParts]
  split
  · next hempty =>
    rw [List.length_eq_zero_iff.1 hempty]
    rfl
  rfl

theorem encodeCommandContainer_eq (cmdParts : List CommandPart) :
    encodeCommandContainer cmdParts = encodeArray (cmdParts.map CommandPart.bytes) := by
  rw [encodeCommandContainer]
  split
  · next hempty =>
    rw [List.length_eq_zero_iff.1 hempty]
    rfl
  rw [foldl_appendCommandPart, encodeArray, appendUnsignedDecimal, length_map]

theorem append_eq (out cmd : Bytes) (args : List Bytes) :
    append out cmd args = out ++ encodeArray (cmd :: args) := by
  rw [append, foldl_appendBulkString, appendBulkString_eq, encodeArray_eq, appendUnsignedDecimal,
    length_cons, flatMap_cons, Nat.add_comm 1]
  simp only [append_assoc]
  rfl

theorem appendCommandFast_eq (out cmd : Bytes) (args : List Bytes) :
    appendCommandFast out cmd args = out ++ encodeArray (cmd :: args) := append_eq out cmd args

theorem encodeCommand_eq (cmd : Bytes) (args : List Bytes) :
    encodeCommand cmd args = encodeArray (cmd :: args) := append_eq [] cmd args

theorem encodeCommandPack_eq (cmd : Bytes) (args : List CommandPart) :
    encodeCommandPack cmd args = encodeArray (cmd :: args.map CommandPart.bytes) := by
  rw [encodeCommandPack, buildCommandArgs_eq, foldl_appendCommandPart, ← encodeCommand_eq,
    encodeCommand, appendUnsignedDecimal, length_map]

end RespEncoder

end Galay.Redis
