/-
# Chain ids

`signing_request/chain_id.cpp`: the known chains and their aliases, and the variant a
request carries its chain in.

* `variantChainId_chainVariant` : the variant of a chain names that chain.
-/
import Dwarfkit.SigningRequest.Request

namespace Dwarfkit

/-- `ChainName`, in the order of its values. -/
inductive ChainName where
  | unknown
  | eos
  | telos
  | jungle
  | kylin
  | worbli
  | bos
  | meetone
  | insights
  | beos
  | wax
  | proton
  | fio
  deriving DecidableEq, Repr

namespace ChainName

/-- The value of a name, as it is used for an alias. -/
def toUInt8 : ChainName → UInt8
  | unknown => 0
  | eos => 1
  | telos => 2
  | jungle => 3
  | kylin => 4
  | worbli => 5
  | bos => 6
  | meetone => 7
  | insights => 8
  | beos => 9
  | wax => 10
  | proton => 11
  | fio => 12

/-- `chainIdLookup`. -/
def chainIdLookup : List (ChainName × Str) := [
  (eos, "aca376f206b8fc25a6ed44dbdc66547c36c6c33e3a119ffbeaef943642f0e906"),
  (telos, "4667b205c6838ef70ff7988f6e8257e8be0e1284a2f59699054a018f743b1d11"),
  (jungle, "e70aaab8997e1dfce58fbfac80cbbb8fecec7b99cf982a9444273cbc64c41473"),
  (kylin, "5fff1dae8dc8e2fc4d5b23b2c7665c97f9e9d8edf2b6485a86ba311c25639191"),
  (worbli, "73647cde120091e0a4b85bced2f3cfdb3041e266cbbe95cee59b73235a1b3b6f"),
  (bos, "d5a3d18fbb3c084e3b1f3fa98c21014b5f3db536cc15d08f9f6479517c6a3d86"),
  (meetone, "cfe6486a83bad4962f232d48003b1824ab5665c36778141034d75e57b956e422"),
  (insights, "b042025541e25a472bffde2d62edd457b7e70cee943412b1ea0f044f88591664"),
  (beos, "b912d19a6abd2b1b05611ae5be473355d64d95aeff0c09bedc8c166cd6468fe4"),
  (wax, "1064487b3cd1a897ce03ae5b6a865651747e2e152090f99c1d19d44e01aea5a4"),
  (proton, "384da888112027f0321850a169f737c33e53b388aad48b5adace4bab97f437e0"),
  (fio, "21dcae42c0182200e93f954a074011f9048a7624c6fe81d3c9541a614a88bd1c")]

end ChainName

namespace ChainId

/-- `ChainId::from(alias)`, of the value of an alias. -/
def ofAlias (value : UInt8) : Result ChainId :=
  match ChainName.chainIdLookup.find? (fun entry => entry.1.toUInt8 = value) with
  | some entry => Checksum.ofHex 32 entry.2
  | none => err .invalid "Unknown chain id alias"

/-- `chainName`. -/
def chainName (id : ChainId) : ChainName :=
  match ChainName.chainIdLookup.find? (fun entry => entry.2 = id.hexString) with
  | some entry => entry.1
  | none => .unknown

/-- `chainVariant`. -/
def chainVariant (id : ChainId) : ChainIdVariant :=
  if chainName id ≠ .unknown then .alias (chainName id).toUInt8 else .id id

end ChainId

/-- `variantChainId`. -/
def variantChainId : ChainIdVariant → Result ChainId
  | .id id => .ok id
  | .alias value => ChainId.ofAlias value

namespace ChainId

/-- No two known chains share an alias. -/
theorem nodup_aliases : (ChainName.chainIdLookup.map (fun entry => entry.1.toUInt8)).Nodup := by
  decide +kernel

/-- Every known id has a name, and its alias finds it again. -/
theorem chainIdLookup_ofAlias (entry : ChainName × Str) (h : entry ∈ ChainName.chainIdLookup) :
    entry.1 ≠ .unknown ∧ ofAlias entry.1.toUInt8 = Checksum.ofHex 32 entry.2 := by
  have hnames : .unknown ∉ ChainName.chainIdLookup.map Prod.fst := by decide +kernel
  have hfind := find?_of_unique h
    (fun _ h' heq => List.inj_on_of_nodup_map nodup_aliases h' h heq)
  constructor
  · intro hunknown
    exact hnames (List.mem_map.mpr ⟨entry, h, hunknown⟩)
  · unfold ofAlias
    rw [hfind]

/-- **The variant of a chain names that chain.** -/
theorem variantChainId_chainVariant (id : ChainId) : variantChainId id.chainVariant = .ok id := by
  unfold chainVariant
  cases hfind : ChainName.chainIdLookup.find? (fun entry => entry.2 = id.hexString) with
  | none =>
    have hname : chainName id = .unknown := by
      unfold chainName
      rw [hfind]
    rw [if_neg (by simpa using hname)]
    rfl
  | some entry =>
    have hname : chainName id = entry.1 := by
      unfold chainName
      rw [hfind]
    have hhex : entry.2 = id.hexString := by simpa using List.find?_some hfind
    obtain ⟨hknown, halias⟩ := chainIdLookup_ofAlias entry (List.mem_of_find?_eq_some hfind)
    rw [if_pos (by rwa [hname]), hname]
    show ofAlias entry.1.toUInt8 = _
    rw [halias, hhex]
    exact Checksum.ofHex_hexString id

/-- Only the chain's own variants name it. -/
theorem chainVariant_ne_any (id : ChainId) : id.chainVariant ≠ .alias 0 := by
  intro h
  have hok := variantChainId_chainVariant id
  rw [h] at hok
  have hnone : (ofAlias 0).toOption.isNone = true := by decide +kernel
  change ofAlias 0 = _ at hok
  rw [hok] at hnone
  cases hnone

end ChainId

theorem length_repeatedBytes (b : UInt8) : (List.replicate 32 b).length = 32 := List.length_replicate

/-- A chain of no known name, by the byte its id repeats. -/
def repeatedChain (b : UInt8) : ChainId := ⟨List.replicate 32 b, length_repeatedBytes b⟩

end Dwarfkit
