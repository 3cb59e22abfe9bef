/-
# Checksums, public keys and signatures

The fixed-size checksums, Base58 with its checksum, and the `PublicKey` and
`Signature` values with their text forms.  Hashing and key recovery are the
vendored C libraries': they come in as a `Crypto` record.
-/
import Dwarfkit.Antelope.Serializer.Coder

namespace Dwarfkit

open Wire

/-! ## Checksums -/

/-- `ChecksumBase`: exactly `n` bytes. -/
structure Checksum (n : ℕ) where
  array : Bytes
  size_eq : array.length = n
  deriving DecidableEq

abbrev Checksum160 := Checksum 20
abbrev Checksum256 := Checksum 32
abbrev Checksum512 := Checksum 64

namespace Checksum

variable {n : ℕ}

theorem ext_array {a b : Checksum n} (h : a.array = b.array) : a = b := by
  cases a
  cases b
  simp_all

/-- `abiDefault`: all zero. -/
def zero (n : ℕ) : Checksum n := ⟨List.replicate n 0, List.length_replicate⟩

instance : Inhabited (Checksum n) := ⟨zero n⟩

/-- `from(span)`: the length must match. -/
def ofBytes (n : ℕ) (value : Bytes) : Result (Checksum n) :=
  if h : value.length = n then .ok ⟨value, h⟩
  else err .invalid ("Checksum size mismatch, expected " ++
    natToString n ++ " bytes got " ++ natToString value.length)

/-- `from(string_view)`: hex text. -/
def ofHex (n : ℕ) (hex : Str) : Result (Checksum n) := do
  let bytes ← hexToArray hex
  ofBytes n bytes

/-- `hexString`, `toString`. -/
def hexString (c : Checksum n) : Str := arrayToHex c.array

/-- A checksum is read back from its hex text. -/
@[simp]
theorem ofHex_hexString (c : Checksum n) : ofHex n c.hexString = .ok c := by
  rw [ofHex, hexString, hexToArray_arrayToHex, ok_bind, ofBytes, dif_pos c.size_eq]

end Checksum

/-! ## The crypto libraries -/

/-- `Supported Antelope/EOSIO curve types`. -/
inductive KeyType where
  | K1
  | R1
  | WA
  deriving DecidableEq, Repr

/-- What the toolkit calls of the vendored hash and curve libraries: the two
digests, and the recovery of a compressed key from signature data and a digest. -/
structure Crypto where
  sha256 : Bytes → Checksum256
  ripemd160 : Bytes → Checksum160
  recover : Bytes → Checksum256 → KeyType → Result Bytes

namespace KeyType

/-- `keytype::toString`. -/
def toString : KeyType → Str
  | K1 => "K1"
  | R1 => "R1"
  | WA => "WA"

/-- `keytype::indexFor`. -/
def index : KeyType → ℕ
  | K1 => 0
  | R1 => 1
  | WA => 2

/-- `keytype::from(int)`. -/
def ofIndex (i : ℕ) : Result KeyType :=
  match i with
  | 0 => .ok K1
  | 1 => .ok R1
  | 2 => .ok WA
  | _ => err .invalid "Unknown curve type"

/-- `keytype::from(string_view)`. -/
def ofString (value : Str) : Result KeyType :=
  if value = "K1" then .ok K1
  else if value = "R1" then .ok R1
  else if value = "WA" then .ok WA
  else err .invalid ("Unknown curve type: " ++ value)

theorem ofIndex_index (t : KeyType) : ofIndex t.index = .ok t := by
  cases t <;> rfl

end KeyType

/-! ## Base58 -/

namespace Base58

/-- The alphabet. -/
def chars : Str := "123456789ABCDEFGHJKLMNPQRSTUVWXYZabcdefghijkmnopqrstuvwxyz"

/-- `charMap`. -/
def charMap (c : UInt8) : Option ℕ :=
  if c ∈ chars then some (chars.idxOf c) else none

/-- Multiply a little-endian number in base `base` by `mult` and add `carry`. -/
def mulAdd (mult base : ℕ) : List ℕ → ℕ → List ℕ × ℕ
  | [], carry => ([], carry)
  | d :: ds, carry =>
    let x := d * mult + carry
    let (ds', carry') := mulAdd mult base ds (x / base)
    (x % base :: ds', carry')

/-- `decodingError`. -/
def decodingError {α : Type} (message : Str) (code : Str) (info : List (Str × Json)) : Result α :=
  err .invalid message 0 (.obj (info ++ [(lit "code", .str code)]))

/-- One character of `decode`: with a fixed size a carry left over is an error,
without one it is a further byte. -/
def decodeStep (fixed : Bool) (result : List ℕ) (c : UInt8) : Result (List ℕ) :=
  match charMap c with
  | none => decodingError "Invalid Base58 character encountered" "E_INVALID"
      [(lit "char", .str [c])]
  | some digit =>
    let (ds, carry) := mulAdd 58 256 result digit
    if carry = 0 then .ok ds
    else if fixed then decodingError "Base58 value is out of range" "E_INVALID" []
    else .ok (ds ++ [carry % 256])

/-- `decode`, `decodeVar`. -/
def decode (s : Str) (size : Option ℕ) : Result Bytes :=
  match size with
  | some n => do
    let ds ← s.foldlM (decodeStep true) (List.replicate n 0)
    return ds.reverse.map Nat.toUInt8
  | none => do
    let ds ← s.foldlM (decodeStep false) []
    let ones := (s.takeWhile (· = 49)).map (fun _ => 0)
    return (ds ++ ones).reverse.map Nat.toUInt8

/-- `ripemd160Checksum`. -/
def ripemd160Checksum (crypto : Crypto) (data : Bytes) (suffix : Option Str) : Bytes :=
  (crypto.ripemd160 (data ++ suffix.getD [])).array.take 4

/-- `checksumMismatch`. -/
def checksumMismatch {α : Type} (actual expected data : Bytes) (hash : Str) : Result α :=
  decodingError "Checksum mismatch" "E_CHECKSUM"
    [(lit "actual", .str (arrayToHex actual)), (lit "expected", .str (arrayToHex expected)),
     (lit "data", .str (arrayToHex data)), (lit "hash", .str hash)]

/-- `decodeRipemd160Check`. -/
def decodeRipemd160Check (crypto : Crypto) (encoded : Str) (size : Option ℕ)
    (suffix : Option Str) : Result Bytes := do
  let decoded ← decode encoded (size.map (· + 4))
  if decoded.length < 4 then checksumMismatch [] decoded [] "ripemd160"
  else
    let data := decoded.take (decoded.length - 4)
    let expected := decoded.drop (decoded.length - 4)
    let actual := ripemd160Checksum crypto data suffix
    if expected ≠ actual then checksumMismatch actual expected data "ripemd160"
    else return data

/-- The digits a carry is pushed as; a carry is below 256, so two always do. -/
def carryDigits (carry : ℕ) : List ℕ :=
  if carry = 0 then [] else if carry < 58 then [carry] else [carry % 58, carry / 58]

/-- `encode`. -/
def encode (data : Bytes) : Str :=
  let digits := data.foldl (fun result byte =>
    let (ds, carry) := mulAdd 256 58 result byte.toNat
    ds ++ carryDigits carry) []
  let ones := (data.takeWhile (· = 0)).map (fun _ => (49 : UInt8))
  (digits.map (fun d => chars.getD d 0) ++ ones).reverse

/-- `encodeRipemd160Check`. -/
def encodeRipemd160Check (crypto : Crypto) (data : Bytes) (suffix : Option Str) : Str :=
  encode (data ++ ripemd160Checksum crypto data suffix)

end Base58

/-! ## Public keys and signatures -/

/-- A public key: its curve and its compressed point (with the WebAuthn data
after it for `WA`). -/
structure PublicKey where
  type : KeyType := .K1
  data : Bytes := []
  deriving DecidableEq, Repr

/-- A signature: its curve and its data. -/
structure Signature where
  type : KeyType := .K1
  data : Bytes := []
  deriving DecidableEq, Repr

/-- `split`. -/
def split (value : Str) (delim : UInt8) : List Str := value.splitOn delim

/-- The shared text form of keys and signatures, `<prefix>_<type>_<data>`, whose
data has a fixed size except for `WA`. -/
def parseTagged (crypto : Crypto) (value : Str) (size : ℕ) (message : Str) :
    Result (KeyType × Bytes) :=
  match split value 95 with
  | [_, tag, text] => do
    let type ← KeyType.ofString tag
    let size := if type = .WA then none else some size
    let data ← Base58.decodeRipemd160Check crypto text size (some type.toString)
    return (type, data)
  | _ => err .invalid message

namespace PublicKey

/-- `PublicKey::from`: the modern form, or a legacy `EOS…` key of fifty
characters, whose data is taken as long as it comes. -/
def ofString (crypto : Crypto) (value : Str) : Result PublicKey :=
  if (lit "PUB_").isPrefixOf value then do
    let (type, data) ← parseTagged crypto value 33 "Invalid public key string"
    return { type, data }
  else if 50 ≤ value.length then do
    let data ← Base58.decodeRipemd160Check crypto (value.drop (value.length - 50)) none none
    return { type := .K1, data }
  else err .invalid "Invalid public key string"

/-- `toString`. -/
def toString (crypto : Crypto) (k : PublicKey) : Str :=
  lit "PUB_" ++ k.type.toString ++ lit "_" ++
    Base58.encodeRipemd160Check crypto k.data (some k.type.toString)

/-- `compareBytes`. -/
def compareBytes : (a b : Bytes) → Int
  | [], [] => 0
  | [], _ :: _ => -1
  | _ :: _, [] => 1
  | x :: xs, y :: ys => if x = y then compareBytes xs ys else if x < y then -1 else 1

/-- `readRpid`: past the point, the presence byte and the length prefix. -/
def readRpid (data : Bytes) : Bytes :=
  ((data.drop 34).dropWhile (fun b => b &&& 0x80 ≠ 0)).drop 1

/-- `compareWebAuthn`. -/
def compareWebAuthn (a b : Bytes) : Int :=
  let byPrefix := compareBytes (a.take 34) (b.take 34)
  if byPrefix ≠ 0 then byPrefix else compareBytes (readRpid a) (readRpid b)

/-- `compare`: the ordering nodeos enforces on authority keys. -/
def compare (a b : PublicKey) : Int :=
  if a.type.index ≠ b.type.index then if a.type.index < b.type.index then -1 else 1
  else if a.type = .WA then compareWebAuthn a.data b.data
  else compareBytes a.data b.data

end PublicKey

namespace Signature

/-- `Signature::from`. -/
def ofString (crypto : Crypto) (value : Str) : Result Signature :=
  if (lit "SIG_").isPrefixOf value then do
    let (type, data) ← parseTagged crypto value 65 "Invalid signature string"
    return { type, data }
  else err .invalid "Invalid signature string"

/-- `toString`. -/
def toString (crypto : Crypto) (s : Signature) : Str :=
  lit "SIG_" ++ s.type.toString ++ lit "_" ++
    Base58.encodeRipemd160Check crypto s.data (some s.type.toString)

/-- `recoverDigest`: the key is of the signature's own type. -/
def recoverDigest (crypto : Crypto) (s : Signature) (digest : Checksum256) :
    Result PublicKey := do
  let compressed ← crypto.recover s.data digest s.type
  return { type := s.type, data := compressed }

end Signature

end Dwarfkit
