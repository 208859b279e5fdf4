import Mediation.Decimal
import Mediation.Radix
import Mediation.Table

/-!
# Identifiers

Trade ids, node addresses and key rings are texts of a fixed form, checked when
they are made, so a malformed one never enters the protocol. Message ids are
128-bit numbers with a hyphenated hexadecimal text.
-/

namespace Mediation

inductive ValidationError where
  | tradeId (text : String)
  | nodeAddress (text : String)
  | pubKeyRing (text : String)
  deriving DecidableEq, Repr

def ValidationError.message : ValidationError → String
  | .tradeId s => "invalid trade id: \"" ++ s ++ "\" (expected 1-128 chars of [A-Za-z0-9._-])"
  | .nodeAddress s => "invalid node address: \"" ++ s ++ "\" (expected host:port)"
  | .pubKeyRing s => "invalid pub key ring fingerprint: \"" ++ s ++ "\" (expected hex)"

/-! ### Trade ids -/

def isTradeIdChar (c : Char) : Bool :=
  ('a' ≤ c && c ≤ 'z') || ('A' ≤ c && c ≤ 'Z') || Decimal.isDigit c
    || c = '-' || c = '_' || c = '.'

/-- Whether a text is a trade id: 1 to 128 letters, digits, points, hyphens and underscores. -/
def isTradeId (s : String) : Bool :=
  s.toList ≠ [] && s.toList.length ≤ 128 && s.toList.all isTradeIdChar

structure TradeId where
  text : String
  valid : isTradeId text = true
  deriving DecidableEq

namespace TradeId

def ofString? (s : String) : Except ValidationError TradeId :=
  if h : isTradeId s = true then .ok ⟨s, h⟩ else .error (.tradeId s)

instance : LT TradeId := ⟨fun a b => a.text < b.text⟩

instance : DecidableLT TradeId := fun a b => inferInstanceAs (Decidable (a.text < b.text))

theorem ext_text {a b : TradeId} (h : a.text = b.text) : a = b := by
  cases a
  cases b
  simp only at h
  subst h
  rfl

instance : KeyOrder TradeId where
  irrefl a := KeyOrder.irrefl a.text
  trans := fun {a b c} h1 h2 =>
    KeyOrder.trans (a := a.text) (b := b.text) (c := c.text) h1 h2
  connex a b := by
    rcases KeyOrder.connex a.text b.text with h | h | h
    · exact Or.inl h
    · exact Or.inr (Or.inl (ext_text h))
    · exact Or.inr (Or.inr h)

theorem ofString?_text (id : TradeId) : ofString? id.text = .ok id := by
  simp [ofString?, id.valid]

end TradeId

/-! ### Node addresses -/

def splitLastColon : List Char → Option (List Char × List Char)
  | [] => none
  | c :: cs =>
    match splitLastColon cs with
    | some (front, back) => some (c :: front, back)
    | none => if c = ':' then some ([], cs) else none

/-- Host and number of an address: what stands before and after the last colon,
when the host is not empty and the number is one from 1 to 65535. -/
def addressParts? (s : String) : Option (String × Nat) :=
  match splitLastColon s.toList with
  | none => none
  | some (host, digits) =>
    match Decimal.parseBelow? 65536 digits with
    | none => none
    | some n => if host ≠ [] ∧ n ≠ 0 then some (String.ofList host, n) else none

structure NodeAddress where
  text : String
  valid : (addressParts? text).isSome = true
  deriving DecidableEq

namespace NodeAddress

def ofString? (s : String) : Except ValidationError NodeAddress :=
  if h : (addressParts? s).isSome = true then .ok ⟨s, h⟩ else .error (.nodeAddress s)

/-- What stands before the last colon; all of a text without one. -/
def host (a : NodeAddress) : String :=
  ((splitLastColon a.text.toList).map fun parts => String.ofList parts.1).getD a.text

/-- The number behind the last colon; 0 where there is none. -/
def number (a : NodeAddress) : Nat :=
  ((splitLastColon a.text.toList).bind fun parts => Decimal.parseBelow? 65536 parts.2).getD 0

theorem ofString?_text (a : NodeAddress) : ofString? a.text = .ok a := by
  simp [ofString?, a.valid]

def localhostText (n : Nat) : String := String.ofList ("localhost:".toList ++ Decimal.digits n)

/-- A node on this machine; none for a number outside of 1 to 65535. -/
def localhost? (n : Nat) : Option NodeAddress := (ofString? (localhostText n)).toOption

/-- The address a node has unless its configuration names another. -/
def default : NodeAddress := ⟨"localhost:9999", by decide +kernel⟩

end NodeAddress

/-! ### Key rings -/

def isHexDigit (c : Char) : Bool := (Radix.value? c).isSome

/-- The lower case of an ASCII letter; any other character as it is. -/
def lowerChar (c : Char) : Char :=
  if 'A' ≤ c && c ≤ 'Z' then Char.ofNat (c.toNat + 32) else c

/-- Whether a text is a fingerprint: hexadecimal digits, an even and positive number of them. -/
def isFingerprint (s : String) : Bool :=
  s.toList ≠ [] && s.toList.length % 2 = 0 && s.toList.all isHexDigit

structure PubKeyRing where
  fingerprint : String
  valid : isFingerprint fingerprint = true
  lower : fingerprint.toList.map lowerChar = fingerprint.toList
  deriving DecidableEq

namespace PubKeyRing

theorem isHexDigit_lowerChar (c : Char) (h : isHexDigit c = true) :
    isHexDigit (lowerChar c) = true := by
  have key : ∀ n, n < 128 → isHexDigit (Char.ofNat n) = true →
      isHexDigit (lowerChar (Char.ofNat n)) = true := by decide
  have hc : c.toNat < 128 := Radix.toNat_lt_of_value? h
  have := key c.toNat hc
  rw [Char.ofNat_toNat] at this
  exact this h

theorem lowerChar_lowerChar (c : Char) : lowerChar (lowerChar c) = lowerChar c := by
  by_cases h : ('A' ≤ c && c ≤ 'Z') = true
  · have key : ∀ n, n < 128 → lowerChar (lowerChar (Char.ofNat n)) = lowerChar (Char.ofNat n) := by
      decide
    have hc : c.toNat < 128 := by
      simp only [Bool.and_eq_true, decide_eq_true_eq, Char.le_def, UInt32.le_iff_toNat_le] at h
      have h1 : ('Z' : Char).val.toNat = 90 := rfl
      have h4 : c.toNat = c.val.toNat := rfl
      omega
    have := key c.toNat hc
    rwa [Char.ofNat_toNat] at this
  · simp [lowerChar, h]

def ofString? (s : String) : Except ValidationError PubKeyRing :=
  if h : isFingerprint s = true then
    .ok {
      fingerprint := String.ofList (s.toList.map lowerChar)
      valid := by
        simp only [isFingerprint, Bool.and_eq_true, decide_eq_true_eq, List.all_eq_true] at h
        simp only [isFingerprint, String.toList_ofList, Bool.and_eq_true, decide_eq_true_eq,
          List.all_eq_true, List.length_map, List.mem_map, ne_eq, List.map_eq_nil_iff]
        refine ⟨h.1, fun c hc => ?_⟩
        obtain ⟨d, hd, rfl⟩ := hc
        exact isHexDigit_lowerChar d (h.2 d hd)
      lower := by
        simp [lowerChar_lowerChar] }
  else .error (.pubKeyRing s)

theorem ofString?_fingerprint (k : PubKeyRing) : ofString? k.fingerprint = .ok k := by
  simp [ofString?, k.valid, k.lower]

end PubKeyRing

/-! ### Message ids -/

structure MessageUid where
  bits : Nat
  bits_lt : bits < 2 ^ 128
  deriving DecidableEq

namespace MessageUid

instance : LT MessageUid := ⟨fun a b => a.bits < b.bits⟩

instance : DecidableLT MessageUid := fun a b => inferInstanceAs (Decidable (a.bits < b.bits))

instance : KeyOrder MessageUid where
  irrefl a := Nat.lt_irrefl a.bits
  trans := fun {a b c} h1 h2 => Nat.lt_trans (n := a.bits) (m := b.bits) (k := c.bits) h1 h2
  connex a b := by
    rcases Nat.lt_trichotomy a.bits b.bits with h | h | h
    · exact Or.inl h
    · refine Or.inr (Or.inl ?_)
      cases a
      cases b
      simp only at h
      subst h
      rfl
    · exact Or.inr (Or.inr h)

/-- The hyphenated text: 8, 4, 4, 4 and 12 digits in lower case. -/
def chars (u : MessageUid) : List Char :=
  let ds := Radix.digits 32 u.bits
  ds.take 8 ++ '-' :: (ds.drop 8).take 4 ++ '-' :: (ds.drop 12).take 4
    ++ '-' :: (ds.drop 16).take 4 ++ '-' :: ds.drop 20

/-- The hyphenated text. -/
def text (u : MessageUid) : String := String.ofList u.chars

def ofDigits? (ds : List Char) : Option MessageUid :=
  if ds.length = 32 then
    (Radix.number? 16 ds).bind fun n => if h : n < 2 ^ 128 then some ⟨n, h⟩ else none
  else none

/-- The id of a hyphenated text of 36 characters. -/
def ofHyphenated? (cs : List Char) : Option MessageUid :=
  if cs.length = 36 ∧ cs[8]? = some '-' ∧ cs[13]? = some '-' ∧ cs[18]? = some '-'
      ∧ cs[23]? = some '-' then
    ofDigits? (cs.take 8 ++ (cs.drop 9).take 4 ++ (cs.drop 14).take 4 ++ (cs.drop 19).take 4
      ++ cs.drop 24)
  else none

/-- The id that a text names: 32 digits, the hyphenated form, the same in
braces, or the same behind `urn:uuid:`; digits of either case. -/
def ofChars? (cs : List Char) : Option MessageUid :=
  match cs with
  | '\x7b' :: r =>
    match r.getLast? with
    | some '\x7d' => ofHyphenated? r.dropLast
    | _ => none
  | 'u' :: 'r' :: 'n' :: ':' :: 'u' :: 'u' :: 'i' :: 'd' :: ':' :: r => ofHyphenated? r
  | _ => if cs.length = 32 then ofDigits? cs else ofHyphenated? cs

def ofString? (s : String) : Option MessageUid := ofChars? s.toList

end MessageUid

end Mediation
