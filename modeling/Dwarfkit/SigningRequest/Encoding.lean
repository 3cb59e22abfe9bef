/-
# Request uris

`SigningRequest::encode`, `from` and `fromData`: a header byte with the version and
the compression bit, the request data and the signature, deflated where that is
shorter, as URL-safe base64 behind a scheme.

* `ofUri_encode` : a request whose lengths fit comes back from its uri.
-/
import Dwarfkit.Core.Zlib
import Dwarfkit.SigningRequest.Abi
import Dwarfkit.SigningRequest.Base64u

namespace Dwarfkit

open Wire

/-! ## The parts of an encoded request -/

namespace VersionedData

/-- The version whose data this is. -/
def version : VersionedData → ℕ
  | v2 _ => 2
  | v3 _ => 3

def callback : VersionedData → Str
  | v2 d => d.callback
  | v3 d => d.callback

/-- `abi_traits<RequestDataV2>` or `abi_traits<RequestDataV3>`, the part that encodes. -/
def toABI : VersionedData → Result Bytes
  | v2 d => (AbiTraits.requestData AbiTraits.identityV2).toABI d
  | v3 d => (AbiTraits.requestData AbiTraits.identityV3).toABI d

/-- The part that decodes, by the version of the header. -/
def fromABI (version : ℕ) : Decoder VersionedData :=
  if version = 2 then do
    let d ← (AbiTraits.requestData AbiTraits.identityV2).fromABI
    return v2 d
  else do
    let d ← (AbiTraits.requestData AbiTraits.identityV3).fromABI
    return v3 d

/-- The length prefixes hold the lengths, and the strings are UTF-8. -/
def Sized : VersionedData → Prop
  | v2 d => d.Sized
  | v3 d => d.Sized

end VersionedData

namespace SigningRequest

/-- What a request carries its signature behind the data in; nothing if it has none. -/
def readSignature (p : Platform) : Decoder (Option RequestSignature) := do
  let more ← canRead
  if more then do
    let sig ← (AbiTraits.requestSignature p).fromABI
    return some sig
  else return none

/-- `getData`. -/
def getData (request : SigningRequest) : Bytes := request.data.toABI.toOption.getD []

/-- `getSignatureData`. -/
def getSignatureData (p : Platform) (request : SigningRequest) : Bytes :=
  match request.signature with
  | none => []
  | some sig => ((AbiTraits.requestSignature p).toABI sig).toOption.getD []

/-- The bit of the header that marks a deflated request. -/
def compressedFlag : UInt8 := 0x80

/-! ## Encoding -/

/-- The header and what follows it: deflated if that is wanted, works and is shorter. -/
def pack (z : Zlib) (shouldCompress : Bool) (header : UInt8) (array : Bytes) : Bytes :=
  if shouldCompress then
    match z.deflateRaw array with
    | .ok deflated =>
      if deflated.length < array.length then (header ||| compressedFlag) :: deflated
      else header :: array
    | .error _ => header :: array
  else header :: array

/-- `encode`; `zlib` is the request's own option. -/
def encode (z : Zlib) (p : Platform) (request : SigningRequest) (compress : Option Bool := none)
    (slashes : Bool := true) (scheme : Str := "esr:") (zlib : Bool := true) : Str :=
  let array := request.getData ++ request.getSignatureData p
  let out := pack z (compress.getD zlib) request.version.toUInt8 array
  scheme ++ (if slashes then lit "//" else []) ++ Base64u.encode out

/-! ## Decoding -/

/-- What follows the header, inflated if the header says so. -/
def unpack (z : Zlib) (header : UInt8) (payload : Bytes) : Result Bytes :=
  if header &&& compressedFlag ≠ 0 then z.inflateRaw payload else .ok payload

/-- `fromData`. -/
def fromData (z : Zlib) (p : Platform) : Bytes → Result SigningRequest
  | [] => err .invalid "Invalid request data"
  | header :: payload => do
    let version := (header &&& ~~~compressedFlag).toNat
    if version ≠ 2 ∧ version ≠ 3 then err .invalid "Unsupported protocol version"
    else do
      let payload ← unpack z header payload
      let (data, rest) ← (VersionedData.fromABI version).run payload
      let (signature, _) ← (readSignature p).run rest
      let request : SigningRequest := { version, data, signature }
      if request.isIdentity && request.data.flags.broadcast then
        err .invalid "Invalid request (identity request cannot be broadcast)"
      else return request

/-- The path of a uri without its slashes. -/
def dropSlashes : Str → Str
  | 47 :: 47 :: path => path
  | path => path

/-- `SigningRequest::from`, of a uri. -/
def ofUri (z : Zlib) (p : Platform) (uri : Str) : Result SigningRequest :=
  match uri.dropWhile (fun c => c ≠ 58) with
  | [] => err .invalid "Invalid request uri"
  | _ :: path => fromData z p (Base64u.decode (dropSlashes path))

/-! ## The uri -/

/-- An encoded text has no slash. -/
theorem slash_notMem_encode (data : Bytes) : 47 ∉ Base64u.encode data := by
  have hcharset : 47 ∉ Base64u.charset true := by decide +kernel
  exact fun hmem => hcharset (Base64u.mem_charset_of_mem_encode hmem)

/-- So it is not taken for one behind slashes. -/
theorem dropSlashes_encode (data : Bytes) : dropSlashes (Base64u.encode data) = Base64u.encode data := by
  have hmem := slash_notMem_encode data
  unfold dropSlashes
  split
  · rename_i path heq
    rw [heq] at hmem
    simp at hmem
  · rfl

/-- The path behind a scheme is the data. -/
theorem ofUri_scheme (z : Zlib) (p : Platform) {scheme : Str} (hscheme : 58 ∉ scheme)
    (slashes : Bool) (data : Bytes) :
    ofUri z p ((scheme ++ [58]) ++ (if slashes then lit "//" else []) ++ Base64u.encode data) =
      fromData z p data := by
  have hdrop : ((scheme ++ [58]) ++ (if slashes then lit "//" else []) ++
      Base64u.encode data).dropWhile (fun c => c ≠ 58) =
      58 :: ((if slashes then lit "//" else []) ++ Base64u.encode data) := by
    rw [List.append_assoc, List.append_assoc, List.dropWhile_append_of_pos]
    · rfl
    · intro c hc
      have hne : c ≠ 58 := fun h => hscheme (h ▸ hc)
      simpa using hne
  have hpath : dropSlashes ((if slashes then lit "//" else []) ++ Base64u.encode data) =
      Base64u.encode data := by
    cases slashes with
    | true => rfl
    | false => exact dropSlashes_encode data
  unfold ofUri
  rw [hdrop]
  show fromData z p (Base64u.decode (dropSlashes _)) = _
  rw [hpath, Base64u.decode_encode]

/-! ## The header -/

/-- The version is read back from the header, with or without the compression bit. -/
theorem header_bits {version : ℕ} (h : version = 2 ∨ version = 3) :
    (version.toUInt8 &&& ~~~compressedFlag).toNat = version ∧
    ((version.toUInt8 ||| compressedFlag) &&& ~~~compressedFlag).toNat = version ∧
    version.toUInt8 &&& compressedFlag = 0 ∧
    (version.toUInt8 ||| compressedFlag) &&& compressedFlag ≠ 0 := by
  rcases h with rfl | rfl
  · decide
  · decide

/-- Packed bytes are a header of the version, and unpack to what was packed, or to what is
inflated of what was deflated. -/
theorem unpack_packed (z : Zlib) (shouldCompress : Bool) {version : ℕ}
    (h : version = 2 ∨ version = 3) (array : Bytes) :
    ∃ header payload, pack z shouldCompress version.toUInt8 array = header :: payload ∧
      (header &&& ~~~compressedFlag).toNat = version ∧
      (unpack z header payload = .ok array ∨ shouldCompress = true ∧
        z.deflateRaw array = .ok payload ∧ unpack z header payload = z.inflateRaw payload) := by
  obtain ⟨hplain, hflagged, hclear, hset⟩ := header_bits h
  have huncompressed : unpack z version.toUInt8 array = .ok array := by
    unfold unpack
    rw [if_neg (by simpa using hclear)]
  unfold pack
  cases shouldCompress with
  | false => exact ⟨_, _, rfl, hplain, .inl huncompressed⟩
  | true =>
    cases hdeflate : z.deflateRaw array with
    | error e => exact ⟨_, _, rfl, hplain, .inl huncompressed⟩
    | ok deflated =>
      by_cases hshorter : deflated.length < array.length
      · refine ⟨version.toUInt8 ||| compressedFlag, deflated, ?_, hflagged, .inr ⟨rfl, rfl, ?_⟩⟩
        · simp [hshorter]
        · unfold unpack
          rw [if_pos hset]
      · refine ⟨version.toUInt8, array, ?_, hplain, .inl huncompressed⟩
        simp [hshorter]

/-- Below the cap they unpack to what was packed. -/
theorem unpack_pack (z : Zlib) (hz : z.Inverse) (shouldCompress : Bool) {version : ℕ}
    (h : version = 2 ∨ version = 3) (array : Bytes)
    (hcap : shouldCompress = true → array.length < maxInflateOutput) :
    ∃ header payload, pack z shouldCompress version.toUInt8 array = header :: payload ∧
      (header &&& ~~~compressedFlag).toNat = version ∧ unpack z header payload = .ok array := by
  obtain ⟨header, payload, hpack, hheader, hunpack⟩ := unpack_packed z shouldCompress h array
  refine ⟨header, payload, hpack, hheader, ?_⟩
  rcases hunpack with hplain | ⟨hcompress, hdeflate, hinflate⟩
  · exact hplain
  · rw [hinflate]
    exact hz array payload (hcap hcompress) hdeflate

/-! ## The data and the signature -/

/-- Request data is read back under its own version. -/
theorem reads_data {data : VersionedData} (h : data.Sized) :
    ∃ bytes, data.toABI = .ok bytes ∧ Reads (VersionedData.fromABI data.version) bytes data := by
  cases data with
  | v2 d =>
    obtain ⟨bytes, hbytes⟩ := AbiTraits.requestData_writes AbiTraits.identityV2_writes d
    obtain ⟨-, hread⟩ := AbiTraits.requestData_roundTrips AbiTraits.identityV2_roundTrips d bytes h hbytes
    exact ⟨bytes, hbytes, hread.bind_pure _⟩
  | v3 d =>
    obtain ⟨bytes, hbytes⟩ := AbiTraits.requestData_writes AbiTraits.identityV3_writes d
    obtain ⟨-, hread⟩ := AbiTraits.requestData_roundTrips AbiTraits.identityV3_roundTrips d bytes h hbytes
    exact ⟨bytes, hbytes, hread.bind_pure _⟩

/-- A signature at the end of the input is read back, and so is its absence. -/
theorem run_readSignature (p : Platform) {request : SigningRequest}
    (h : ∀ sig ∈ request.signature, sig.signature.WireShaped) :
    (readSignature p).run (request.getSignatureData p) = .ok (request.signature, []) := by
  unfold getSignatureData
  cases hsig : request.signature with
  | none => rfl
  | some sig =>
    obtain ⟨bytes, hbytes⟩ := AbiTraits.requestSignature_writes p sig
    obtain ⟨hne, hread⟩ := AbiTraits.requestSignature_roundTrips p sig bytes (h sig hsig) hbytes
    have hmore : bytes.isEmpty = false := by simpa using hne
    simp only [hbytes, Except.toOption, Option.getD_some]
    show ((if !bytes.isEmpty then do
        let sig ← (AbiTraits.requestSignature p).fromABI
        return some sig
        else return none : Decoder (Option RequestSignature)).run bytes) = _
    rw [hmore]
    exact (hread.bind_pure some).run_eq

/-! ## The round trip -/

/-- A request that can come back: the data has the request's version, the lengths and
strings fit, the signature has the size of its curve, and it is no broadcast identity
request. -/
structure Encodable (request : SigningRequest) : Prop where
  version : request.version = request.data.version
  sized : request.data.Sized
  signature : ∀ sig ∈ request.signature, sig.signature.WireShaped
  notBroadcast : (request.isIdentity && request.data.flags.broadcast) = false

theorem Encodable.version_cases {request : SigningRequest} (h : request.Encodable) :
    request.version = 2 ∨ request.version = 3 := by
  rw [h.version]
  cases request.data with
  | v2 d => exact .inl rfl
  | v3 d => exact .inr rfl

/-- Data that unpacks to an encodable request is that request. -/
theorem fromData_packed (z : Zlib) (p : Platform) {request : SigningRequest}
    (h : request.Encodable) {header : UInt8} {payload : Bytes}
    (hheader : (header &&& ~~~compressedFlag).toNat = request.version)
    (hunpack : unpack z header payload = .ok (request.getData ++ request.getSignatureData p)) :
    fromData z p (header :: payload) = .ok request := by
  obtain ⟨bytes, hbytes, hread⟩ := reads_data h.sized
  rw [← h.version] at hread
  have hdata : request.getData = bytes := by
    unfold getData
    rw [hbytes]
    rfl
  have hversion := h.version_cases
  unfold fromData
  simp only [hheader]
  rw [if_neg (by omega), hunpack, ok_bind, hdata, hread, ok_bind]
  simp only [run_readSignature p h.signature, ok_bind]
  show (if request.isIdentity && request.data.flags.broadcast then _ else pure request) = _
  rw [h.notBroadcast]
  rfl

/-- **A request comes back from its uri.**  Whatever the compression wish, the slashes
and the scheme, `from` reads what `encode` wrote as the same request, provided the
request is encodable and, where compression is wanted, below the inflate cap. -/
theorem ofUri_encode (z : Zlib) (hz : z.Inverse) (p : Platform) (request : SigningRequest)
    (h : request.Encodable) (compress : Option Bool) (slashes : Bool) (scheme : Str)
    (hscheme : 58 ∉ scheme) (zlib : Bool)
    (hcap : compress.getD zlib = true →
      (request.getData ++ request.getSignatureData p).length < maxInflateOutput) :
    ofUri z p (request.encode z p compress slashes (scheme ++ [58]) zlib) = .ok request := by
  obtain ⟨header, payload, hpack, hheader, hunpack⟩ :=
    unpack_pack z hz (compress.getD zlib) h.version_cases _ hcap
  unfold encode
  simp only
  rw [ofUri_scheme z p hscheme, hpack]
  exact fromData_packed z p h hheader hunpack

/-- A compressor that shortens one input; any other goes behind a byte that starts no
deflated data. -/
def oneInputZlib (input output : Bytes) : Zlib where
  deflateRaw array := if array = input then .ok output else .ok (0xff :: array)
  inflateRaw deflated :=
    if deflated = output then .ok input
    else match deflated with
      | 0xff :: array => .ok array
      | _ => err .invalid "invalid compressed data"

theorem oneInputZlib_inverse {input output : Bytes} (h : output.head? ≠ some 0xff) :
    (oneInputZlib input output).Inverse := by
  intro array deflated _ hdeflate
  unfold oneInputZlib at hdeflate ⊢
  simp only at hdeflate ⊢
  split at hdeflate
  · rename_i harray
    cases hdeflate
    rw [if_pos rfl, harray]
  · cases hdeflate
    rw [if_neg (fun heq => h (by rw [← heq]; rfl))]
    rfl

/-- A signed identity request. -/
def signedIdentity : SigningRequest where
  version := 3
  data := .v3 {
    req := .identity { scope := .ofString "dwarfkit" }
    callback := "https://example.com/login" }
  signature := some {
    signer := .ofString "alice"
    signature := { type := .K1, data := List.replicate 65 0 } }

/-- What deflates the signed identity request. -/
def signedIdentityZlib : Zlib :=
  oneInputZlib (signedIdentity.getData ++ signedIdentity.getSignatureData default)
    [99, 96, 96, 102, 96, 96, 184, 121, 176, 148, 215, 159, 129, 65, 50, 163, 164, 164, 160, 216,
      74, 95, 63, 181, 34, 49, 183, 32, 39, 85, 47, 57, 63, 87, 63, 39, 63, 61, 51, 143, 1, 12,
      90, 99, 76, 24, 40, 6, 0]

theorem encodable_signedIdentity : signedIdentity.Encodable where
  version := rfl
  sized := ⟨trivial, ⟨by decide +kernel, by decide +kernel⟩, by decide +kernel, by
    intro pair hpair
    cases hpair⟩
  signature := by
    rintro sig ⟨⟩
    show Signature.WireShaped { type := .K1, data := List.replicate 65 0 }
    unfold Signature.WireShaped
    rw [if_neg (by decide)]
    exact List.length_replicate
  notBroadcast := by decide +kernel

theorem ofUri_encode_signedIdentity :
    ofUri signedIdentityZlib default
      (signedIdentity.encode signedIdentityZlib default none true (lit "esr" ++ [58])) =
      .ok signedIdentity :=
  ofUri_encode signedIdentityZlib (oneInputZlib_inverse (by decide)) default signedIdentity
    encodable_signedIdentity none true (lit "esr") (by decide +kernel) true
    (fun _ => by decide +kernel)

/-! ## What does not come back -/

/-- A compressor that adds a byte below the cap, and is shorter only above it. -/
def storedZlib : Zlib where
  deflateRaw array := if array.length < maxInflateOutput then .ok (0 :: array) else .ok [1]
  inflateRaw
    | 0 :: array => .ok array
    | _ => err .invalid "compressed data too large"

theorem storedZlib_inverse : storedZlib.Inverse := by
  intro array deflated hlen h
  have hdeflate : storedZlib.deflateRaw array = .ok (0 :: array) := if_pos hlen
  rw [hdeflate] at h
  cases h
  rfl

/-- A request without actions that has a callback. -/
def callbackRequest (callback : Str) : SigningRequest where
  data := .v2 { req := .actions [], callback }

/-- The same with a signature of its own. -/
def signedRequest (signature : Signature) : SigningRequest where
  data := .v2 { req := .actions [] }
  signature := some { signer := {}, signature }

theorem getData_callbackRequest (callback : Str) :
    (callbackRequest callback).getData = [0, 0] ++ [1, 0] ++ [0] ++ writeString callback ++ [0] := by
  have hchain : AbiTraits.chainIdVariant.toABI (.alias 0) = .ok [0, 0] := rfl
  have hreq : (AbiTraits.requestVariant AbiTraits.identityV2).toABI (.actions []) = .ok [1, 0] := rfl
  have hflags : AbiTraits.requestFlags.toABI {} = .ok [0] := rfl
  have hcallback : AbiTraits.string.toABI callback = .ok (writeString callback) := rfl
  have hinfo : AbiTraits.infoPair.vector.toABI [] = .ok [0] := rfl
  unfold getData callbackRequest VersionedData.toABI AbiTraits.requestData
  simp only [hchain, hreq, hflags, hcallback, hinfo, ok_bind]
  rfl

/-- No request with a callback of `2 ^ 32` bytes is read. -/
theorem callback_of_requestData {I : Type} {identity : AbiTraits I} {s rest : Bytes}
    {d : RequestData I} (h : (AbiTraits.requestData identity).fromABI.run s = .ok (d, rest)) :
    d.callback.length < 2 ^ 32 := by
  unfold AbiTraits.requestData at h
  simp only [StateT.run_bind] at h
  obtain ⟨chain_id, -, h⟩ := bind_eq_ok.mp h
  obtain ⟨req, -, h⟩ := bind_eq_ok.mp h
  obtain ⟨flags, -, h⟩ := bind_eq_ok.mp h
  obtain ⟨⟨callback, afterCallback⟩, hcallback, h⟩ := bind_eq_ok.mp h
  obtain ⟨info, -, h⟩ := bind_eq_ok.mp h
  cases h
  exact (yields_readString _ _ _ hcallback).2

theorem callback_of_fromData {z : Zlib} {p : Platform} {data : Bytes} {request : SigningRequest}
    (h : fromData z p data = .ok request) : request.data.callback.length < 2 ^ 32 := by
  rcases data with _ | ⟨header, payload⟩
  · cases h
  unfold fromData at h
  simp only at h
  split at h
  · cases h
  obtain ⟨unpacked, -, h⟩ := bind_eq_ok.mp h
  obtain ⟨⟨read, rest⟩, hread, h⟩ := bind_eq_ok.mp h
  obtain ⟨⟨signature, end_⟩, -, h⟩ := bind_eq_ok.mp h
  simp only at h
  split at h
  · cases h
  cases h
  unfold VersionedData.fromABI at hread
  show read.callback.length < 2 ^ 32
  split at hread
  · rw [StateT.run_bind] at hread
    obtain ⟨⟨d, afterData⟩, hd, hread⟩ := bind_eq_ok.mp hread
    cases hread
    exact callback_of_requestData hd
  · rw [StateT.run_bind] at hread
    obtain ⟨⟨d, afterData⟩, hd, hread⟩ := bind_eq_ok.mp hread
    cases hread
    exact callback_of_requestData hd

/-- A callback too long for its length prefix does not come back. -/
theorem ofUri_encode_long {n : ℕ} (hn : 2 ^ 32 ≤ n) (z : Zlib) (p : Platform)
    (compress : Option Bool) :
    ofUri z p ((callbackRequest (List.replicate n 97)).encode z p compress) ≠
      .ok (callbackRequest (List.replicate n 97)) := by
  intro h
  have huri := ofUri_scheme z p (show 58 ∉ lit "esr" by decide) true
    (pack z (compress.getD true) 2 ((callbackRequest (List.replicate n 97)).getData ++ []))
  have hlen : (List.replicate n (97 : UInt8)).length < 2 ^ 32 :=
    callback_of_fromData (huri.symm.trans h)
  rw [List.length_replicate] at hlen
  omega

/-- A compressed request above the cap is refused. -/
theorem ofUri_encode_large {n : ℕ} (hn : maxInflateOutput ≤ n) (p : Platform) :
    ofUri storedZlib p ((callbackRequest (List.replicate n 97)).encode storedZlib p) =
      err .invalid "compressed data too large" := by
  have huri := ofUri_scheme storedZlib p (show 58 ∉ lit "esr" by decide) true
    (pack storedZlib true 2 ((callbackRequest (List.replicate n 97)).getData ++ []))
  have hlen : n < ((callbackRequest (List.replicate n 97)).getData ++ []).length := by
    rw [getData_callbackRequest, writeString]
    simp only [List.length_append, List.length_replicate, List.length_cons]
    omega
  have hpack : pack storedZlib true 2 ((callbackRequest (List.replicate n 97)).getData ++ []) =
      [0x82, 1] := by
    have hdeflate : storedZlib.deflateRaw
        ((callbackRequest (List.replicate n 97)).getData ++ []) = .ok [1] := if_neg (by omega)
    have hshorter : [(1 : UInt8)].length <
        ((callbackRequest (List.replicate n 97)).getData ++ []).length := by
      have hone : 1 ≤ maxInflateOutput := by decide
      show 1 < _
      omega
    unfold pack
    rw [if_pos rfl, hdeflate]
    simp only [if_pos hshorter]
    rfl
  have hfails : fromData storedZlib p [0x82, 1] =
      err .invalid "compressed data too large" := rfl
  have hencode : (callbackRequest (List.replicate n 97)).encode storedZlib p =
      (lit "esr" ++ [58]) ++ (if true then lit "//" else []) ++ Base64u.encode
        (pack storedZlib true 2 ((callbackRequest (List.replicate n 97)).getData ++ [])) := rfl
  rw [hpack, hfails] at huri
  rw [hencode, hpack, huri]

/-- A request that cannot come back: its callback is too long for the length prefix,
its compressed form inflates past the cap, or its signature has no bytes. -/
theorem not_ofUri_encode :
    storedZlib.Inverse ∧ isValidUTF8 (callbackRequest (List.replicate (2 ^ 32) 97)).data.callback ∧
    ofUri storedZlib default
        ((callbackRequest (List.replicate (2 ^ 32) 97)).encode storedZlib default (some false)) ≠
      .ok (callbackRequest (List.replicate (2 ^ 32) 97)) ∧
    ofUri storedZlib default
        ((callbackRequest (List.replicate maxInflateOutput 97)).encode storedZlib default) ≠
      .ok (callbackRequest (List.replicate maxInflateOutput 97)) ∧
    (ofUri storedZlib default
        ((signedRequest { type := .K1, data := [] }).encode storedZlib default)).toOption = none :=
  ⟨storedZlib_inverse, isValidUTF8_replicate _, ofUri_encode_long le_rfl _ _ _,
    (by rw [ofUri_encode_large le_rfl]; exact fun h => by cases h), by decide +kernel⟩

end SigningRequest

end Dwarfkit
