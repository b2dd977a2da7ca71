import AxonGateway.Query.Reconciliation

/-!
# Cursors that come back

A cursor is read back unless it is too long, which the length of its payload decides.
-/

namespace AxonGateway.Query

open PyValue

/-- What DynamoDB takes as a key. -/
structure Key.Legal (key : Key) : Prop where
  pk_ne : key.pk ≠ []
  pk_le : utf8Size key.pk ≤ 2048
  sk_ne : key.sk ≠ []
  sk_le : utf8Size key.sk ≤ 1024

theorem length_le_utf8Size (t : Text) : t.length ≤ utf8Size t := by
  unfold utf8Size
  induction t with
  | nil => exact le_rfl
  | cons c t ih =>
      have hpos := c.utf8Size_pos
      simp only [List.length_cons, List.map_cons, List.sum_cons]
      omega

theorem keyField_iff {t : Text} : keyField t = true ↔ t ≠ [] ∧ t.length ≤ 2048 := by
  simp [keyField]

variable {key : Key}

theorem Key.Legal.keyField_pk (h : key.Legal) : keyField key.pk = true :=
  keyField_iff.mpr ⟨h.pk_ne, (length_le_utf8Size _).trans h.pk_le⟩

theorem Key.Legal.keyField_sk (h : key.Legal) : keyField key.sk = true :=
  keyField_iff.mpr ⟨h.sk_ne, (length_le_utf8Size _).trans (h.sk_le.trans (by norm_num))⟩

theorem encode_of_legal (h : key.Legal) :
    encodeQueryReconciliationCursor (some key) = .ok (some (cursorText key)) :=
  if_pos ⟨h.keyField_pk, h.keyField_sk⟩

theorem loads_payload (key : Key) :
    JsonText.loads (payload key) =
      some (.obj [("key".toList, .obj [("PK".toList, .str key.pk), ("SK".toList, .str key.sk)]),
        ("v".toList, .number ['1'])]) := by
  have hfields : ["PK".toList, "SK".toList].Nodup := by decide
  have hnames : ["key".toList, "v".toList].Nodup := by decide
  have hkey := JsonText.reads_object [("PK".toList, JsonText.text key.pk, .str key.pk),
    ("SK".toList, JsonText.text key.sk, .str key.sk)] hfields (by simp [JsonText.reads_text])
  have hpayload := JsonText.reads_object [("key".toList, _, _), ("v".toList, ['1'], .number ['1'])]
    hnames (by
      intro m hm
      rcases List.mem_cons.mp hm with rfl | hm
      · exact hkey
      · obtain rfl := List.mem_singleton.mp hm
        exact JsonText.reads_one)
  exact JsonText.loads_of_reads hpayload

theorem plain_payload (key : Key) : JsonText.Plain (payload key) := by
  have hkey : JsonText.Plain (JsonText.object [("PK".toList, JsonText.text key.pk),
      ("SK".toList, JsonText.text key.sk)]) :=
    JsonText.plain_object (by simp [JsonText.plain_text])
  refine JsonText.plain_object fun m hm ↦ ?_
  rcases List.mem_cons.mp hm with rfl | hm
  · exact hkey
  · obtain rfl := List.mem_singleton.mp hm
    exact .cons (by decide) JsonText.plain_nil

theorem payload_bytes (key : Key) : ∀ b ∈ (payload key).map Char.toNat, 0 < b ∧ b < 128 := by
  intro b hb
  obtain ⟨c, hc, rfl⟩ := List.mem_map.mp hb
  have hplain := plain_payload key c hc
  omega

theorem payload_lt (key : Key) : ∀ b ∈ (payload key).map Char.toNat, b < 256 := by
  intro b hb
  have hbyte := payload_bytes key b hb
  omega

theorem length_cursorText (key : Key) :
    (cursorText key).length = (4 * (payload key).length + 2) / 3 := by
  rw [cursorText, Base64.length_strip_encode (payload_lt key), List.length_map]

theorem payload_ne (key : Key) : 0 < (payload key).length := Nat.succ_pos _

theorem payloadText_payload (wide : List ℕ → Option Text) (key : Key) :
    payloadText wide ((payload key).map Char.toNat) = some (payload key) := by
  rw [payloadText, if_pos (payload_bytes key), List.map_map]
  have hid : Char.ofNat ∘ Char.toNat = id := funext Char.ofNat_toNat
  rw [hid, List.map_id]

theorem readPayload_payload (h : key.Legal) :
    readPayload (.obj [("key".toList, .obj [("PK".toList, .str key.pk),
      ("SK".toList, .str key.sk)]), ("v".toList, .number ['1'])]) = some key := by
  have hone : JsonText.isOne (.number ['1']) = true := by decide
  have hkey : readKey [("PK".toList, .str key.pk), ("SK".toList, .str key.sk)] = some key :=
    if_pos ⟨rfl, h.keyField_pk, h.keyField_sk⟩
  have hlookup (v w : Value) : List.lookup "v".toList [("key".toList, v), ("v".toList, w)] = some w :=
    rfl
  have hlookup' (v w : Value) :
      List.lookup "key".toList [("key".toList, v), ("v".toList, w)] = some v := rfl
  simp only [readPayload, hlookup, hlookup']
  rw [if_pos ⟨rfl, hone⟩, hkey]

theorem length_payload (key : Key) :
    (payload key).length =
      (key.pk.flatMap JsonText.escape).length + (key.sk.flatMap JsonText.escape).length + 31 := by
  simp only [payload, JsonText.object, JsonText.memberList, List.map_cons, List.map_nil, joined,
    List.length_cons, List.length_append, List.length_nil, JsonText.length_text]
  have hnames : ∀ name ∈ ["PK", "SK", "v", "key"], (name.toList.flatMap JsonText.escape).length =
      name.length := by decide
  rw [hnames "PK" (by simp), hnames "SK" (by simp), hnames "v" (by simp), hnames "key" (by simp)]
  have hlengths : "PK".length = 2 ∧ "SK".length = 2 ∧ "v".length = 1 ∧ "key".length = 3 := by decide
  omega

variable (wide : List ℕ → Option Text)

theorem decode_cursorText (h : key.Legal) (hshort : (payload key).length ≤ 3072) :
    decodeQueryReconciliationCursor wide (some (cursorText key)) = .ok (some key) := by
  have hlength := length_cursorText key
  have hpos := payload_ne key
  have hspace : Base64.alphabet.all (fun c ↦ !PyText.isSpace c) = true := by decide +kernel
  have hvalid : ¬ (cursorText key = [] ∨ 4096 < (cursorText key).length ∨
      (cursorText key).any PyText.isSpace = true) := by
    rintro (hnil | hlong | hblank)
    · rw [hnil, List.length_nil] at hlength
      omega
    · omega
    · obtain ⟨c, hc, hblank⟩ := List.any_eq_true.mp hblank
      have hmem := Base64.mem_alphabet_of_strip (payload_lt key) c hc
      have hword := List.all_eq_true.mp hspace c hmem
      rw [hblank] at hword
      cases hword
  rw [decodeQueryReconciliationCursor, if_neg hvalid, cursorText,
    Base64.decode_strip_encode (payload_lt key), Option.bind_some, payloadText_payload,
    Option.bind_some, loads_payload, Option.bind_some, readPayload_payload h]

theorem decode_cursorText_of_long (hlong : 3072 < (payload key).length) :
    decodeQueryReconciliationCursor wide (some (cursorText key)) =
      .error "query reconciliation cursor is invalid" := by
  have hlength := length_cursorText key
  exact if_pos (.inr (.inl (by omega)))

/-- A cursor is read back exactly when its payload is short enough. -/
theorem decode_encode_iff (h : key.Legal) :
    (∃ cursor, encodeQueryReconciliationCursor (some key) = .ok cursor ∧
      decodeQueryReconciliationCursor wide cursor = .ok (some key)) ↔
        (payload key).length ≤ 3072 := by
  constructor
  · rintro ⟨cursor, hencode, hdecode⟩
    rw [encode_of_legal h] at hencode
    obtain rfl := Except.ok.inj hencode
    by_contra hlong
    rw [decode_cursorText_of_long wide (by omega)] at hdecode
    cases hdecode
  · intro hshort
    exact ⟨_, encode_of_legal h, decode_cursorText wide h hshort⟩

end AxonGateway.Query
