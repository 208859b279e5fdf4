import Mediation.Json.Decode

/-!
# JSON formats

A type has a JSON format when it has a written form and a decoder for it. With
formats, values are written to texts and read from them without naming either.
-/

namespace Mediation

class JsonFormat (α : Type) where
  write : α → Json
  read : Decode.Decoder α

namespace JsonFormat

open Decode

abbrev ofRecord {α : Type} (write : α → Json) (r : Record α) : JsonFormat α := ⟨write, r.decode⟩

abbrev ofText {α : Type} (text : α → String) (read : Decoder α) : JsonFormat α :=
  ⟨fun a => .string (text a), read⟩

instance : JsonFormat String := ⟨.string, string⟩

instance : JsonFormat Bool := ⟨.bool, boolean⟩

instance : JsonFormat Nat := ⟨.nat, count⟩

instance : JsonFormat UInt8 := ⟨fun b => .nat b.toNat, byte⟩

instance : JsonFormat TradeId := ofText TradeId.text tradeId

instance : JsonFormat NodeAddress := ofText NodeAddress.text nodeAddress

instance : JsonFormat PubKeyRing := ofText PubKeyRing.fingerprint pubKeyRing

instance : JsonFormat MessageUid := ofText MessageUid.text messageUid

instance {α : Type} [JsonFormat α] : JsonFormat (List α) := ⟨.list write, listOf read⟩

def toText {α : Type} [JsonFormat α] (a : α) : String := (write a).render

def ofText? {α : Type} [JsonFormat α] (text : String) : Except DecodeError α :=
  decodeText read text

end JsonFormat

end Mediation
