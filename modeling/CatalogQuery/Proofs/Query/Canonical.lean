import CatalogQuery.Proofs.Json.Unambiguous
import CatalogQuery.Proofs.Query.Leaves

/-!
# Distinct roots have distinct canonical text

Canonical data keeps all of a value, call or condition whose numbers are finite
(`Condition.toJson_injective`, `Call.toJson_injective`): the tag of an object tells the kind, and
the other fields hold the parts. Its text keeps all of the data (`Json.compact_injective`).

`canonical_unambiguous`: two roots with the same canonical text are equal, and two roots with the
same fingerprint are equal unless their texts are a collision of the digest.
-/

namespace CatalogQuery

/-! ### Digests -/

namespace Digest

/-- Two messages that are not equal but have the same digest. -/
structure Collision (m n : List UInt8) : Prop where
  ne : m ≠ n
  same : sha256 m = sha256 n

/-- A digest is read off its hexadecimal text. -/
theorem hex_injective {m n : List UInt8} (h : hex m = hex n) : m = n := by
  have hdigit : ∀ a < 16, ∀ b < 16, Nat.digitChar a = Nat.digitChar b → a = b := by decide
  have h := String.ofList_injective h
  induction m generalizing n with
  | nil =>
    cases n with
    | nil => rfl
    | cons b n => cases h
  | cons a m ih =>
    cases n with
    | nil => cases h
    | cons b n =>
      rw [List.flatMap_cons, List.flatMap_cons, List.cons_append, List.cons_append,
        List.cons_append, List.cons_append, List.nil_append, List.nil_append, List.cons_eq_cons,
        List.cons_eq_cons] at h
      obtain ⟨hhigh, hlow, hrest⟩ := h
      -- a byte is below 256, so both of its halves are digits
      have ha := a.toNat_lt
      have hb := b.toNat_lt
      have hhigh := hdigit _ (by omega) _ (by omega) hhigh
      have hlow := hdigit _ (by omega) _ (by omega) hlow
      have hab : a = b := UInt8.toNat_inj.mp (by omega)
      rw [hab, ih (congrArg String.ofList hrest) hrest]

end Digest

/-- The bytes of a row, from a place on. -/
theorem toList_loop (bytes : ByteArray) (i : ℕ) (sofar : List UInt8) :
    ByteArray.toList.loop bytes i sofar = sofar.reverse ++ bytes.data.toList.drop i := by
  fun_induction ByteArray.toList.loop bytes i sofar with
  | case1 i sofar hi ih =>
    have hi : i < bytes.data.toList.length := hi
    have hget : bytes.get! i = bytes.data.toList[i] := getElem!_pos bytes.data i hi
    rw [ih, List.drop_eq_getElem_cons hi, hget, List.reverse_cons, List.append_assoc]
    rfl
  | case2 i sofar hi =>
    have hi : bytes.data.toList.length ≤ i := not_lt.mp hi
    rw [List.drop_eq_nil_of_le hi, List.append_nil]

/-- A text is read off its bytes. -/
theorem toUTF8_toList_injective {s t : String} (h : s.toUTF8.toList = t.toUTF8.toList) : s = t := by
  have hdata : ∀ bytes : ByteArray, bytes.toList = bytes.data.toList := fun bytes =>
    toList_loop bytes 0 []
  rw [hdata, hdata] at h
  exact String.toByteArray_inj.mp (ByteArray.ext (Array.toList_inj.mp h))

/-! ### Values -/

/-- The tag that stands in front of the other fields of an object. -/
def Json.tag? : Json → Option String
  | .obj ((_, .str tag) :: _) => some tag
  | _ => none

/-- No number in the value is an infinity or a NaN. -/
def Value.Finite (v : Value) : Prop := ∀ x, .float x ∈ v.leaves → x.isFinite = true

def Call.Finite (c : Call) : Prop := ∀ v ∈ c.arguments, v.Finite

def Condition.Finite (d : Condition) : Prop := ∀ c ∈ d.calls, c.Finite

theorem Context.toJson_injective {c d : Context} (h : c.toJson = d.toJson) : c = d := by
  obtain ⟨name, typeName, payload⟩ := c
  obtain ⟨name', typeName', payload'⟩ := d
  cases h
  rfl

namespace Value

/-- The tag of a value in its canonical data. -/
def tag : Value → String
  | .none => "None"
  | .bool _ => "Bool"
  | .int _ => "Int"
  | .float _ => "Float"
  | .str _ => "Str"
  | .list _ => "List"
  | .context _ => "Context"

theorem tag?_toJson (v : Value) : v.toJson.tag? = some v.tag := by
  cases v <;> rfl

theorem tag_eq_of_toJson {v w : Value} (h : v.toJson = w.toJson) : w.tag = v.tag := by
  rw [← Option.some_inj, ← tag?_toJson, ← tag?_toJson, h]

theorem tagged_injective {kind kind' : String} {a b : Json}
    (h : tagged kind a = tagged kind' b) : a = b := by
  cases h
  rfl

theorem ofDouble_injective {x y : Double} (hx : x.isFinite = true) (hy : y.isFinite = true)
    (h : Json.ofDouble x = Json.ofDouble y) : x = y := by
  rw [Json.ofDouble, Json.ofDouble, dif_pos hx, dif_pos hy] at h
  cases h
  rfl

theorem Finite.of_list {vs : List Value} (h : (Value.list vs).Finite) : ∀ v ∈ vs, v.Finite := by
  intro v hv x hx
  apply h x
  rw [leaves, leavesOfEach_eq]
  exact List.mem_flatMap_of_mem hv hx

mutual

/-- **Canonical data keeps all of a value.** -/
theorem toJson_injective : ∀ {v w : Value}, v.Finite → w.Finite → v.toJson = w.toJson → v = w
  | .none, w, _, _, h => by
    have htag := tag_eq_of_toJson h
    cases w with
    | none => rfl
    | _ => simp [tag] at htag
  | .bool b, w, _, _, h => by
    have htag := tag_eq_of_toJson h
    cases w with
    | bool b' =>
      cases tagged_injective h
      rfl
    | _ => simp [tag] at htag
  | .int n, w, _, _, h => by
    have htag := tag_eq_of_toJson h
    cases w with
    | int n' => rw [Int64.toInt_inj.mp (Json.int.inj (tagged_injective h))]
    | _ => simp [tag] at htag
  | .float x, w, hv, hw, h => by
    have htag := tag_eq_of_toJson h
    cases w with
    | float y =>
      have hx := hv x (List.mem_singleton_self _)
      have hy := hw y (List.mem_singleton_self _)
      rw [ofDouble_injective hx hy (tagged_injective h)]
    | _ => simp [tag] at htag
  | .str s, w, _, _, h => by
    have htag := tag_eq_of_toJson h
    cases w with
    | str t =>
      cases tagged_injective h
      rfl
    | _ => simp [tag] at htag
  | .list vs, w, hv, hw, h => by
    have htag := tag_eq_of_toJson h
    cases w with
    | list ws =>
      have hitems := Json.arr.inj (tagged_injective h)
      rw [itemsToJson_injective hv.of_list hw.of_list hitems]
    | _ => simp [tag] at htag
  | .context c, w, _, _, h => by
    have htag := tag_eq_of_toJson h
    cases w with
    | context d => rw [Context.toJson_injective (tagged_injective h)]
    | _ => simp [tag] at htag

theorem itemsToJson_injective : ∀ {vs ws : List Value}, (∀ v ∈ vs, v.Finite) →
    (∀ w ∈ ws, w.Finite) → itemsToJson vs = itemsToJson ws → vs = ws
  | [], [], _, _, _ => rfl
  | [], _ :: _, _, _, h => by cases h
  | _ :: _, [], _, _, h => by cases h
  | v :: vs, w :: ws, hv, hw, h => by
    obtain ⟨hv, hvs⟩ := List.forall_mem_cons.mp hv
    obtain ⟨hw, hws⟩ := List.forall_mem_cons.mp hw
    obtain ⟨hhead, htail⟩ := List.cons_eq_cons.mp h
    rw [toJson_injective hv hw hhead, itemsToJson_injective hvs hws htail]

end

end Value

/-! ### Roots -/

theorem Call.fields_injective {c d : Call} (hc : c.Finite) (hd : d.Finite)
    (h : c.fields = d.fields) : c = d := by
  obtain ⟨name, arguments⟩ := c
  obtain ⟨name', arguments'⟩ := d
  simp only [fields, List.cons.injEq, Prod.mk.injEq, Json.str.injEq, Json.arr.injEq] at h
  obtain ⟨⟨-, rfl⟩, ⟨-, harguments⟩, -⟩ := h
  obtain rfl := Value.itemsToJson_injective hc hd harguments
  rfl

/-- **Canonical data keeps all of a call.** -/
theorem Call.toJson_injective {c d : Call} (hc : c.Finite) (hd : d.Finite)
    (h : c.toJson = d.toJson) : c = d := fields_injective hc hd (Json.obj.inj h)

namespace Condition

/-- The tag of a condition in its canonical data. -/
def tag : Condition → String
  | .all _ => "And"
  | .any _ => "Or"
  | .not _ => "Not"
  | .call _ => "Call"

theorem tag?_toJson (d : Condition) : d.toJson.tag? = some d.tag := by
  cases d <;> rfl

theorem tag_eq_of_toJson {c d : Condition} (h : c.toJson = d.toJson) : d.tag = c.tag := by
  rw [← Option.some_inj, ← tag?_toJson, ← tag?_toJson, h]

theorem children_injective {kind : String} {cs ds : List Json}
    (h : Json.obj [("type", .str kind), ("children", .arr cs)]
      = .obj [("type", .str kind), ("children", .arr ds)]) : cs = ds := by
  cases h
  rfl

theorem Finite.of_operands {cs : List Condition} (h : ∀ c ∈ callsOfEach cs, c.Finite) :
    ∀ c ∈ cs, c.Finite := by
  intro c hc d hd
  apply h d
  rw [callsOfEach_eq]
  exact List.mem_flatMap_of_mem hc hd

mutual

/-- **Canonical data keeps all of a condition.** -/
theorem toJson_injective : ∀ {c d : Condition}, c.Finite → d.Finite → c.toJson = d.toJson → c = d
  | .all cs, d, hc, hd, h => by
    have htag := tag_eq_of_toJson h
    cases d with
    | all ds =>
      have hchildren := children_injective h
      rw [operandsToJson_injective (.of_operands hc) (.of_operands hd) hchildren]
    | _ => simp [tag] at htag
  | .any cs, d, hc, hd, h => by
    have htag := tag_eq_of_toJson h
    cases d with
    | any ds =>
      have hchildren := children_injective h
      rw [operandsToJson_injective (.of_operands hc) (.of_operands hd) hchildren]
    | _ => simp [tag] at htag
  | .not c, d, hc, hd, h => by
    have htag := tag_eq_of_toJson h
    cases d with
    | not d =>
      simp only [toJson, Json.obj.injEq, List.cons.injEq, Prod.mk.injEq] at h
      obtain ⟨-, ⟨-, hchild⟩, -⟩ := h
      have hc : c.Finite := hc
      have hd : d.Finite := hd
      rw [toJson_injective hc hd hchild]
    | _ => simp [tag] at htag
  | .call c, d, hc, hd, h => by
    have htag := tag_eq_of_toJson h
    cases d with
    | call d =>
      have hfields := (List.cons_eq_cons.mp (Json.obj.inj h)).2
      have hc := hc c (List.mem_singleton_self c)
      have hd := hd d (List.mem_singleton_self d)
      rw [Call.fields_injective hc hd hfields]
    | _ => simp [tag] at htag

theorem operandsToJson_injective : ∀ {cs ds : List Condition}, (∀ c ∈ cs, c.Finite) →
    (∀ d ∈ ds, d.Finite) → operandsToJson cs = operandsToJson ds → cs = ds
  | [], [], _, _, _ => rfl
  | [], _ :: _, _, _, h => by cases h
  | _ :: _, [], _, _, h => by cases h
  | c :: cs, d :: ds, hc, hd, h => by
    obtain ⟨hc, hcs⟩ := List.forall_mem_cons.mp hc
    obtain ⟨hd, hds⟩ := List.forall_mem_cons.mp hd
    obtain ⟨hhead, htail⟩ := List.cons_eq_cons.mp h
    rw [toJson_injective hc hd hhead, operandsToJson_injective hcs hds htail]

end

end Condition

/-! ### Fingerprints -/

/-- The bytes of which the fingerprint of a root is the digest. -/
def canonicalBytes {α : Type} [Root α] (root : α) : List UInt8 :=
  (Root.toJson root).compact.toUTF8.toList

/-- Roots with distinct texts share a fingerprint only if the texts are a collision. -/
theorem fingerprint_eq {α : Type} [Root α] {a b : α} (h : fingerprint a = fingerprint b) :
    (Root.toJson a).compact = (Root.toJson b).compact ∨
      Digest.Collision (canonicalBytes a) (canonicalBytes b) := by
  have hdigest : Digest.sha256 (canonicalBytes a) = Digest.sha256 (canonicalBytes b) :=
    Digest.hex_injective h
  by_cases hbytes : canonicalBytes a = canonicalBytes b
  · exact .inl (toUTF8_toList_injective hbytes)
  · exact .inr ⟨hbytes, hdigest⟩

/-- **Canonical text is unambiguous.** Two conditions, or two calls, whose numbers are finite are
equal if their canonical texts are, with all that their contexts carry. If they share a fingerprint,
they are equal or their texts are a collision of the digest. -/
theorem canonical_unambiguous :
    (∀ c d : Condition, c.Finite → d.Finite →
      ((Root.toJson c).compact = (Root.toJson d).compact → c = d) ∧
      (fingerprint c = fingerprint d →
        c = d ∨ Digest.Collision (canonicalBytes c) (canonicalBytes d))) ∧
    (∀ c d : Call, c.Finite → d.Finite →
      ((Root.toJson c).compact = (Root.toJson d).compact → c = d) ∧
      (fingerprint c = fingerprint d →
        c = d ∨ Digest.Collision (canonicalBytes c) (canonicalBytes d))) := by
  constructor
  · intro c d hc hd
    have htext : (Root.toJson c).compact = (Root.toJson d).compact → c = d := fun h =>
      Condition.toJson_injective hc hd (Json.compact_injective h)
    exact ⟨htext, fun h => (fingerprint_eq h).imp_left htext⟩
  · intro c d hc hd
    have htext : (Root.toJson c).compact = (Root.toJson d).compact → c = d := fun h =>
      Call.toJson_injective hc hd (Json.compact_injective h)
    exact ⟨htext, fun h => (fingerprint_eq h).imp_left htext⟩

/-- A call with a number and with a context whose payload is made from the given fields. -/
def Call.paid (fields : List (String × Json)) : Call :=
  ⟨"f", [.float (Binary.ofInt 1), .list [.context ⟨"who", "User", Json.object fields⟩]]⟩

theorem Call.paid_finite (fields : List (String × Json)) : (paid fields).Finite := by
  have hone : (Binary.ofInt 1 : Double).isFinite = true := by decide
  simp [paid, Call.Finite, Value.Finite, Value.leaves, Value.leavesOfEach, hone]

/-- The fields of the payload are given in two orders. -/
theorem canonical_unambiguous_paid :
    ((Root.toJson (Call.paid [("b", .null), ("a", .int 2)])).compact
        = (Root.toJson (Call.paid [("a", .int 2), ("b", .null)])).compact ∧
      Call.paid [("b", .null), ("a", .int 2)] = Call.paid [("a", .int 2), ("b", .null)]) ∧
    (fingerprint (Condition.call (Call.paid [("b", .null), ("a", .int 2)]))
        = fingerprint (Condition.call (Call.paid [("a", .int 2), ("b", .null)])) ∧
      (Condition.call (Call.paid [("b", .null), ("a", .int 2)])
          = .call (Call.paid [("a", .int 2), ("b", .null)]) ∨
        Digest.Collision
          (canonicalBytes (Condition.call (Call.paid [("b", .null), ("a", .int 2)])))
          (canonicalBytes (Condition.call (Call.paid [("a", .int 2), ("b", .null)]))))) := by
  have hfinite : ∀ fields, (Condition.call (Call.paid fields)).Finite := by
    intro fields c hc
    rw [List.mem_singleton.mp hc]
    exact Call.paid_finite fields
  have hcall : (Root.toJson (Call.paid [("b", .null), ("a", .int 2)])).compact
      = (Root.toJson (Call.paid [("a", .int 2), ("b", .null)])).compact := by decide +kernel
  have hprint : fingerprint (Condition.call (Call.paid [("b", .null), ("a", .int 2)]))
      = fingerprint (Condition.call (Call.paid [("a", .int 2), ("b", .null)])) := by
    have htext : (Root.toJson (Condition.call (Call.paid [("b", .null), ("a", .int 2)]))).compact
        = (Root.toJson (Condition.call (Call.paid [("a", .int 2), ("b", .null)]))).compact := by
      decide +kernel
    rw [fingerprint, htext, fingerprint]
  exact ⟨⟨hcall, (canonical_unambiguous.2 _ _ (Call.paid_finite _) (Call.paid_finite _)).1 hcall⟩,
    ⟨hprint, (canonical_unambiguous.1 _ _ (hfinite _) (hfinite _)).2 hprint⟩⟩

/-- A number is not taken for an integer, nor a text for what it imitates. -/
example :
    (Root.toJson (⟨"f", [.int 1]⟩ : Call)).compact
        ≠ (Root.toJson (⟨"f", [.float (Binary.ofInt 1)]⟩ : Call)).compact ∧
      (Root.toJson (⟨"f", [.str "\",\"value\":1"]⟩ : Call)).compact
        ≠ (Root.toJson (⟨"f", [.str "", .int 1]⟩ : Call)).compact := by decide +kernel

end CatalogQuery
