import AxonGateway.Adapters.CoherePairing
import AxonGateway.Lib.JsonEnds

/-!
# Calls of Gemini through a client

What a provider sends with a call comes back from a client in the id of the call. A signed call is
carried whole where its capsule is short enough; an id without a signature is not.
-/

namespace Adapters

open PyValue Screening

/-! ### A turn of a conversation -/

/-- A call of a reply of Gemini. -/
structure GeminiCall where
  name : Text
  args : Fields
  id : Option Text
  signature : Option Text

namespace GeminiCall

def Describes (call : GeminiCall) (part : Fields) : Prop :=
  ∃ functionCall, part.lookup "functionCall".toList = some (.obj functionCall) ∧
    functionCall.lookup "name".toList = some (.str call.name) ∧
    functionCall.lookup "args".toList = some (.obj call.args) ∧
    functionCall.lookup "id".toList = call.id.map .str ∧
    part.lookup "thoughtSignature".toList = call.signature.map .str ∧
    JsonText.Written (.obj call.args)

/-- The call is sent back: with its name and arguments, with its signature, and with the id that
the provider gave it. -/
def SentBack (call : GeminiCall) (part : Value) : Prop :=
  ∃ fields functionCall, part = .obj fields ∧
    fields.lookup "functionCall".toList = some (.obj functionCall) ∧
    functionCall.lookup "name".toList = some (.str call.name) ∧
    functionCall.lookup "args".toList = some (.obj call.args) ∧
    (∀ id, call.id = some id → functionCall.lookup "id".toList = some (.str id)) ∧
    fields.lookup "thoughtSignature".toList = call.signature.map .str

end GeminiCall

/-- A part of a reply, which may be no call. -/
def DescribesPart (call : Option GeminiCall) (part : Value) : Prop :=
  ∃ fields, part = .obj fields ∧ match call with
    | some call => call.Describes fields
    | none => fields.lookup "functionCall".toList = none

/-- The message of the assistant that a client sends back. -/
def assistantTurn (content : Value) (toolCalls : List Fields) : Fields :=
  [(roleKey, .str "assistant".toList), (contentKey, content), (toolCallsKey, .arr (toolCalls.map .obj))]

def isCallPart (part : Value) : Bool :=
  ((dictOf (some part)).lookup "functionCall".toList).isSome

/-- The calls of an entry. -/
def callPartsOf (entry : Fields) : List Value :=
  match entry.lookup partsKey with
  | some (.arr parts) => parts.filter isCallPart
  | _ => []

/-- The entry answers the function of this name. -/
def Responds (name : Text) (entry : Fields) : Prop :=
  ∃ response, entry.lookup partsKey =
    some (.arr [.obj [("functionResponse".toList,
      .obj [("name".toList, .str name), ("response".toList, response)])]])

section

variable (wide : List ℕ → Option Text) (U : Unicode)

/-- The calls of a reply come back from a client, and the results of the tools find their names. -/
def RoundTrips (parts : List Value) (calls : List GeminiCall) (content : Value) : Prop :=
  ∃ toolCalls, geminiPartsToToolCalls U 0 parts = some toolCalls ∧
    (∃ entry, openaiMsgToGemini wide U (assistantTurn content toolCalls) none = some (some entry) ∧
      List.Forall₂ GeminiCall.SentBack calls (callPartsOf entry)) ∧
    List.Forall₂ (fun call toolCall ↦ ∀ output, ∃ entry,
      openaiMsgToGemini wide U (toolEcho (.obj toolCall) output)
        (some (openaiToolCallNames [.obj (assistantTurn content toolCalls)])) = some (some entry) ∧
      Responds call.name entry) calls toolCalls

end

/-! ### What is carried -/

/-- The texts fit in a capsule that is opened again. -/
def CapsuleFits (providerId signature : Text) : Prop :=
  (providerId.flatMap JsonText.escape).length + (signature.flatMap JsonText.escape).length ≤ 12281

instance (providerId signature : Text) : Decidable (CapsuleFits providerId signature) :=
  inferInstanceAs (Decidable (_ ≤ _))

/-- The call has neither an id nor a signature, or it is signed and its capsule is opened again. -/
def GeminiCall.Carried (call : GeminiCall) : Prop :=
  match call.signature with
  | none => call.id = none
  | some signature => signature ≠ [] ∧ call.id ≠ some [] ∧ CapsuleFits (call.id.getD []) signature

/-- Every call is carried, and a signature with its id stands for one name. -/
def Carried (calls : List GeminiCall) : Prop :=
  (∀ call ∈ calls, call.Carried) ∧
    ∀ call ∈ calls, ∀ call' ∈ calls, call.signature ≠ none → call.id = call'.id →
      call.signature = call'.signature → call.name = call'.name

/-! ### Capsules

A capsule ends as a text of JSON does, and no id that was made from a name ends so. -/

section

variable {wide : List ℕ → Option Text}

/-- A text that ends with two characters of ASCII ends with their bytes, with zeros between them or
behind where a character takes several bytes. -/
def ReadsAscii (wide : List ℕ → Option Text) : Prop :=
  ∀ bytes init x y, wide bytes = some (init ++ [x, y]) → x.toNat < 128 → y.toNat < 128 →
    ∃ front a b, bytes = front ++ [a, b] ∧ (b = 0 ∨ b = y.toNat ∧ (a = 0 ∨ a = x.toNat))

/-- The codes of the blanks of JSON. -/
def blankCodes : List ℕ := [32, 9, 10, 13]

theorem toNat_of_isBlank {c : Char} (h : JsonText.isBlank c = true) : c.toNat ∈ blankCodes := by
  simp only [JsonText.isBlank, Bool.or_eq_true, beq_iff_eq] at h
  rcases h with ((rfl | rfl) | rfl) | rfl <;> decide

theorem toNat_of_closes {c : Char} (h : JsonText.Closes c) : c.toNat ∈ 34 :: blankCodes := by
  rcases h with rfl | h
  · decide
  · exact List.mem_cons_of_mem _ (toNat_of_isBlank h)

/-- The last bytes of an array that ends with a string. -/
theorem ends_of_loadsBytes (hwide : ReadsAscii wide) {bytes : List ℕ} {items : List Value} {s : Text}
    (h : loadsBytes wide bytes = some (.arr items)) (hlast : items.getLast? = some (.str s)) :
    ∃ front a b, bytes = front ++ [a, b] ∧
      (b ∈ 0 :: blankCodes ∨ b = 93 ∧ a ∈ 0 :: 34 :: blankCodes) := by
  unfold loadsBytes at h
  obtain ⟨text, htext, hloads⟩ := Option.bind_eq_some_iff.mp h
  obtain ⟨init, x, y, rfl, hends⟩ := JsonText.exists_ends_of_loads hloads hlast
  have hcodes : y.toNat ∈ blankCodes ∧ x.toNat ∈ 93 :: blankCodes ∨
      y.toNat = 93 ∧ x.toNat ∈ 34 :: blankCodes := by
    rcases hends with ⟨hy, hx⟩ | ⟨rfl, hx⟩
    · refine .inl ⟨toNat_of_isBlank hy, ?_⟩
      rcases hx with rfl | hx
      · decide
      · exact List.mem_cons_of_mem _ (toNat_of_isBlank hx)
    · exact .inr ⟨rfl, toNat_of_closes hx⟩
  simp only [blankCodes, List.mem_cons, List.not_mem_nil, or_false] at hcodes ⊢
  split_ifs at htext with hascii
  · obtain ⟨front, tail, rfl, -, htail⟩ := List.map_eq_append_iff.mp (Option.some.inj htext)
    obtain ⟨a, rest, rfl, rfl, hrest⟩ := List.map_eq_cons_iff.mp htail
    obtain ⟨b, last, rfl, rfl, hlast'⟩ := List.map_eq_cons_iff.mp hrest
    obtain rfl := List.map_eq_nil_iff.mp hlast'
    have hvalue : ∀ n < 128, (Char.ofNat n).toNat = n := by decide +kernel
    rw [hvalue a (hascii a (by simp)).2, hvalue b (hascii b (by simp)).2] at hcodes
    exact ⟨front, a, b, rfl, by omega⟩
  · obtain ⟨front, a, b, rfl, hb⟩ := hwide bytes init x y htext (by omega) (by omega)
    exact ⟨front, a, b, rfl, by omega⟩

/-- The end of an id that is made from a name consists of late digits. -/
theorem exists_digit_of_mem {index : ℕ} {c : Char} (h : c ∈ '_' :: (toString index).toList) :
    ∃ n, 52 ≤ n ∧ n < 64 ∧ c = Base64.digit n := by
  rcases List.mem_cons.mp h with rfl | h
  · exact ⟨63, by decide, by decide, by decide⟩
  · have hdigits : (toString index).toList = Nat.toDigits 10 index := Nat.toList_repr
    rw [hdigits] at h
    have hdigit := Nat.isDigit_of_mem_toDigits (by norm_num) (by norm_num) h
    obtain ⟨hlow, hhigh⟩ := Char.isDigit_iff_toNat.mp hdigit
    have hall : ∀ n < 10, Char.ofNat (48 + n) = Base64.digit (52 + n) := by decide
    have hchar := hall (c.toNat - 48) (by change c.toNat ≤ 57 at hhigh; omega)
    change 48 ≤ c.toNat at hlow
    change c.toNat ≤ 57 at hhigh
    rw [Nat.add_sub_cancel' hlow, Char.ofNat_toNat] at hchar
    exact ⟨52 + (c.toNat - 48), by omega, by omega, hchar⟩

/-- No text that ends so is read as an array that ends with a string. -/
theorem loadsBytes_ne (hwide : ReadsAscii wide) {encoded : Text} {bytes : List ℕ}
    (hencoded : encoded ≠ []) (hends : ∀ init p q, encoded = init ++ [p, q] →
      ∀ c ∈ [p, q], ∃ n, 52 ≤ n ∧ n < 64 ∧ c = Base64.digit n)
    (hdecode : Base64.decode (encoded ++ Base64.pad encoded) = some bytes) {items : List Value}
    {s : Text} (hlast : items.getLast? = some (.str s)) :
    loadsBytes wide bytes ≠ some (.arr items) := by
  intro hloads
  obtain rfl | ⟨front, q, rfl⟩ := List.eq_nil_or_concat' encoded
  · exact hencoded rfl
  obtain rfl | ⟨init, p, rfl⟩ := List.eq_nil_or_concat' front
  · have hpad : Base64.pad [q] = ['=', '=', '='] := rfl
    have hequals : Base64.digitValue '=' = none := by decide
    rw [List.nil_append, hpad] at hdecode
    simp [Base64.decode, hequals] at hdecode
  rw [List.append_assoc init [p] [q], List.singleton_append] at hends hdecode
  have hboth := hends init p q rfl
  obtain ⟨m, hm, hm', rfl⟩ := hboth p (by simp)
  obtain ⟨n, hn, hn', rfl⟩ := hboth q (by simp)
  obtain ⟨v, w, hv, hw, hbytes⟩ := Base64.ends_of_decode (Base64.digit_ne hm') (Base64.digit_ne hn')
    hdecode
  rw [Base64.digitValue_digit hm'] at hv
  rw [Base64.digitValue_digit hn'] at hw
  obtain rfl := Option.some.inj hv
  obtain rfl := Option.some.inj hw
  obtain ⟨front, a, b, heq, hab⟩ := ends_of_loadsBytes hwide hloads hlast
  simp only [blankCodes, List.mem_cons, List.not_mem_nil, or_false] at hab
  rw [heq] at hbytes
  -- the last byte of such a text has its low bits set, and those of a bracket and blanks have not
  have hsplit : front ++ [a, b] = front ++ [a] ++ [b] := by
    rw [List.append_assoc, List.singleton_append]
  rcases hbytes with ⟨front', h⟩ | ⟨front', u, h⟩ | ⟨front', h⟩
  · rw [hsplit] at h
    have hb := List.singleton_inj.mp (List.append_inj' h rfl).2
    omega
  · have htail := (List.append_inj' h rfl).2
    rw [List.cons_eq_cons, List.singleton_inj] at htail
    omega
  · rw [hsplit] at h
    have hb := List.singleton_inj.mp (List.append_inj' h rfl).2
    omega

theorem mem_of_ends {name encoded init : Text} {index : ℕ} {p q : Char}
    (hsuffix : encoded <:+ synthesizedId name index) (h : encoded = init ++ [p, q]) :
    ∀ c ∈ [p, q], c ∈ '_' :: (toString index).toList := by
  have hmarked : '_' :: (toString index).toList <:+ synthesizedId name index := List.suffix_append _ _
  subst h
  rcases List.suffix_or_suffix_of_suffix hsuffix hmarked with hwithin | ⟨before, hbefore⟩
  · exact fun c hc ↦ hwithin.subset (List.mem_append_right init hc)
  · obtain hnil | ⟨front, last, hlast⟩ := List.eq_nil_or_concat' (toString index).toList
    · exact absurd hnil (by simp [toString])
    obtain hnil | ⟨front', x, hx⟩ := List.eq_nil_or_concat' ('_' :: front)
    · cases hnil
    have hmark : '_' :: (toString index).toList = front' ++ [x, last] := by
      rw [hlast, ← List.cons_append, hx, List.append_assoc, List.singleton_append]
    rw [hmark, ← List.append_assoc] at hbefore
    rw [hmark, ← (List.append_inj' hbefore rfl).2]
    exact fun c hc ↦ List.mem_append_right front' hc

/-- No id that is made from a name is read as a capsule. -/
theorem geminiCallMetadata_synthesizedId (hwide : ReadsAscii wide) (name : Text) (index : ℕ) :
    geminiCallMetadata wide (.str (synthesizedId name index)) = (none, none) := by
  unfold geminiCallMetadata
  dsimp only
  split_ifs with hcapsule
  · obtain ⟨-, hencoded, -⟩ := hcapsule
    have hends : ∀ init p q, (synthesizedId name index).drop callIdPrefix.length = init ++ [p, q] →
        ∀ c ∈ [p, q], ∃ n, 52 ≤ n ∧ n < 64 ∧ c = Base64.digit n := by
      intro init p q heq c hc
      exact exists_digit_of_mem (mem_of_ends (List.drop_suffix _ _) heq c hc)
    split
    · rename_i providerId c signature hloads
      obtain ⟨bytes, hdecode, hloads⟩ := Option.bind_eq_some_iff.mp hloads
      exact absurd hloads (loadsBytes_ne hwide hencoded hends hdecode rfl)
    · rfl
  · rfl

theorem capsulePayload_eq (providerId signature : Text) :
    capsulePayload providerId signature = '[' :: (JsonText.text providerId ++ ',' ::
      (JsonText.text signature ++ [']'])) := by
  simp [capsulePayload, JsonText.write, JsonText.writeItems, JsonText.gappedArray, joined]

theorem plain_capsulePayload (providerId signature : Text) :
    JsonText.Plain (capsulePayload providerId signature) := by
  rw [capsulePayload_eq]
  refine .cons (by decide) (.append (JsonText.plain_text _) (.cons (by decide) ?_))
  exact .append (JsonText.plain_text _) (.cons (by decide) JsonText.plain_nil)

theorem length_capsulePayload (providerId signature : Text) :
    (capsulePayload providerId signature).length =
      (providerId.flatMap JsonText.escape).length + (signature.flatMap JsonText.escape).length + 7 := by
  rw [capsulePayload_eq]
  simp only [List.length_cons, List.length_append, List.length_nil, JsonText.length_text]
  omega

theorem loadsBytes_payload (providerId signature : Text) :
    loadsBytes wide ((capsulePayload providerId signature).map Char.toNat) =
      some (.arr [.str providerId, .str signature]) := by
  have hplain := plain_capsulePayload providerId signature
  have hascii : ∀ b ∈ (capsulePayload providerId signature).map Char.toNat, 0 < b ∧ b < 128 := by
    intro b hb
    obtain ⟨c, hc, rfl⟩ := List.mem_map.mp hb
    have hcode := hplain c hc
    omega
  have hread : JsonText.loads (capsulePayload providerId signature) =
      some (.arr [.str providerId, .str signature]) :=
    JsonText.loads_write (by simp) (by simp [JsonText.Written, JsonText.WrittenItems])
  unfold loadsBytes
  rw [if_pos hascii, List.map_map, Option.bind_some]
  have hid : Char.ofNat ∘ Char.toNat = id := funext Char.ofNat_toNat
  rw [hid, List.map_id, hread]

theorem payload_byte_lt (providerId signature : Text) :
    ∀ b ∈ (capsulePayload providerId signature).map Char.toNat, b < 256 := by
  intro b hb
  obtain ⟨c, hc, rfl⟩ := List.mem_map.mp hb
  have hcode := plain_capsulePayload providerId signature c hc
  omega

theorem length_capsule_encoded (providerId signature : Text) :
    (Base64.strip (Base64.encode ((capsulePayload providerId signature).map Char.toNat))).length =
      (4 * ((providerId.flatMap JsonText.escape).length +
        (signature.flatMap JsonText.escape).length + 7) + 2) / 3 := by
  rw [Base64.length_strip_encode (payload_byte_lt providerId signature), List.length_map,
    length_capsulePayload]

theorem capsule_encoded_ne_nil (providerId signature : Text) :
    Base64.strip (Base64.encode ((capsulePayload providerId signature).map Char.toNat)) ≠ [] := by
  intro hnil
  have hlength := length_capsule_encoded providerId signature
  rw [hnil, List.length_nil] at hlength
  omega

/-- A capsule is opened exactly if it fits. -/
theorem geminiCallMetadata_capsule (providerId : Text) {signature : Text} (h : signature ≠ []) :
    geminiCallMetadata wide (.str (capsule providerId signature)) =
      if CapsuleFits providerId signature then
        (if providerId.isEmpty then none else some providerId, some signature)
      else (none, none) := by
  have hbytes := payload_byte_lt providerId signature
  have hlength := length_capsule_encoded providerId signature
  have hne := capsule_encoded_ne_nil providerId signature
  have hdrop : (capsule providerId signature).drop callIdPrefix.length =
      Base64.strip (Base64.encode ((capsulePayload providerId signature).map Char.toNat)) :=
    List.drop_left
  have hprefix : callIdPrefix.isPrefixOf (capsule providerId signature) = true :=
    List.isPrefixOf_iff_prefix.mpr (List.prefix_append _ _)
  obtain ⟨c, rest, rfl⟩ := List.exists_cons_of_ne_nil h
  unfold geminiCallMetadata maxCallIdPayload
  dsimp only
  rw [hdrop, hlength, hprefix, Base64.decode_strip_encode hbytes, Option.bind_some, loadsBytes_payload]
  by_cases hfits : CapsuleFits providerId (c :: rest)
  · have hsize := hfits
    unfold CapsuleFits at hsize
    rw [if_pos hfits, if_pos ⟨rfl, hne, by omega⟩]
  · have hsize := hfits
    unfold CapsuleFits at hsize
    rw [if_neg hfits, if_neg (by omega)]

theorem geminiCallMetadata_snd_ne (text : Text) : (geminiCallMetadata wide (.str text)).2 ≠ some [] := by
  unfold geminiCallMetadata
  dsimp only
  split_ifs
  · split <;> simp
  · simp

/-- Without a signature there is no id. -/
theorem geminiCallMetadata_fst_eq {text : Text} (h : (geminiCallMetadata wide (.str text)).2 = none) :
    (geminiCallMetadata wide (.str text)).1 = none := by
  unfold geminiCallMetadata at h ⊢
  dsimp only at h ⊢
  split_ifs at h ⊢ with hcapsule
  · split at h
    · cases h
    · rfl
  · rfl

end

/-! ### The calls that a client is given -/

namespace GeminiCall

variable (call : GeminiCall) (index : ℕ)

def clientId : Text :=
  match call.signature with
  | some (c :: signature) => capsule (call.id.getD []) (c :: signature)
  | _ => if (call.id.getD []).isEmpty then synthesizedId call.name index else call.id.getD []

/-- A call for a client. -/
def toolCall : Fields :=
  [("id".toList, .str (call.clientId index)), (typeKey, .str functionKey),
    (functionKey, .obj [("name".toList, .str call.name),
      ("arguments".toList, .str (dumps (.obj call.args)))])]

end GeminiCall

/-- The calls among some parts with their places. -/
def placedParts (i : ℕ) : List (Option GeminiCall) → List (GeminiCall × ℕ)
  | [] => []
  | none :: parts => placedParts (i + 1) parts
  | some call :: parts => (call, i) :: placedParts (i + 1) parts

theorem map_fst_placedParts (i : ℕ) (parts : List (Option GeminiCall)) :
    (placedParts i parts).map Prod.fst = parts.reduceOption := by
  induction parts generalizing i with
  | nil => rfl
  | cons part parts ih =>
      cases part with
      | none => rw [placedParts, ih, List.reduceOption_cons_of_none]
      | some call => rw [placedParts, List.map_cons, ih, List.reduceOption_cons_of_some]

section

variable {U : Unicode} {call : GeminiCall}

theorem geminiToolCallId_eq {functionCall part : Fields} {index : ℕ}
    (hname : functionCall.lookup "name".toList = some (.str call.name))
    (hid : functionCall.lookup "id".toList = call.id.map .str)
    (hsignature : part.lookup "thoughtSignature".toList = call.signature.map .str) :
    geminiToolCallId U functionCall part index = call.clientId index := by
  have hprovider : textAt functionCall "id" = call.id.getD [] := by
    unfold textAt
    rw [hid]
    cases call.id <;> rfl
  unfold geminiToolCallId GeminiCall.clientId getOr
  rw [hprovider, hname, hsignature]
  rcases call.signature with _ | _ | ⟨c, signature⟩ <;> rfl

theorem geminiToolCall_eq {functionCall part : Fields} {index : ℕ}
    (hname : functionCall.lookup "name".toList = some (.str call.name))
    (hargs : functionCall.lookup "args".toList = some (.obj call.args))
    (hid : functionCall.lookup "id".toList = call.id.map .str)
    (hsignature : part.lookup "thoughtSignature".toList = call.signature.map .str) :
    geminiToolCall U functionCall part index = call.toolCall index := by
  unfold geminiToolCall getOr GeminiCall.toolCall
  rw [geminiToolCallId_eq hname hid hsignature, hname, hargs]
  rfl

theorem geminiPartsToToolCalls_eq {parts : List (Option GeminiCall)} {values : List Value}
    (h : List.Forall₂ DescribesPart parts values) (i : ℕ) :
    geminiPartsToToolCalls U i values = some ((placedParts i parts).map fun c ↦ c.1.toolCall c.2) := by
  induction h generalizing i with
  | nil => rfl
  | @cons part value parts values hpart _ ih =>
      obtain ⟨fields, rfl, hfields⟩ := hpart
      rw [geminiPartsToToolCalls, ih]
      cases part with
      | none =>
          have hdict : dictAt fields "functionCall" = some [] := by
            unfold dictAt
            rw [hfields]
          rw [hdict]
          rfl
      | some call =>
          obtain ⟨functionCall, hcall, hname, hargs, hid, hsignature, -⟩ := hfields
          have hdict : dictAt fields "functionCall" = some functionCall := by
            unfold dictAt
            rw [hcall]
          have hfilled : functionCall.isEmpty = false := by
            cases functionCall with
            | nil => cases hname
            | cons => rfl
          rw [hdict]
          dsimp only [Option.bind_eq_bind, Option.bind_some]
          rw [hfilled, geminiToolCall_eq hname hargs hid hsignature]
          rfl

end

/-! ### The calls that a client sends back -/

/-- The part of a call with what is read from its id. -/
def GeminiCall.part (call : GeminiCall) (metadata : Option Text × Option Text) : Value :=
  .obj (("functionCall".toList, .obj ([("name".toList, .str call.name), ("args".toList, .obj call.args)] ++
      metadata.1.toList.map fun id ↦ ("id".toList, .str id))) ::
    metadata.2.toList.map fun text ↦ ("thoughtSignature".toList, .str text))

section

variable {wide : List ℕ → Option Text} {U : Unicode} {call : GeminiCall}

theorem callPart_toolCall (h : JsonText.Written (.obj call.args)) (index : ℕ) :
    callPart wide (call.toolCall index) =
      some (call.part (geminiCallMetadata wide (.str (call.clientId index)))) := by
  unfold GeminiCall.part
  rw [← parseArgs_dumps h]
  rfl

theorem callParts_toolCalls {calls : List (GeminiCall × ℕ)}
    (h : ∀ c ∈ calls, JsonText.Written (.obj c.1.args)) :
    callParts wide (calls.map fun c ↦ .obj (c.1.toolCall c.2)) =
      some (calls.map fun c ↦ c.1.part (geminiCallMetadata wide (.str (c.1.clientId c.2)))) := by
  induction calls with
  | nil => rfl
  | cons c calls ih =>
      rw [List.map_cons, callParts, callPart_toolCall (h c List.mem_cons_self),
        ih fun c' hc' ↦ h c' (List.mem_cons_of_mem c hc')]
      rfl

theorem sentBack_part_iff (metadata : Option Text × Option Text) :
    call.SentBack (call.part metadata) ↔
      (∀ id, call.id = some id → metadata.1 = some id) ∧ metadata.2 = call.signature := by
  obtain ⟨id, signature⟩ := metadata
  constructor
  · rintro ⟨fields, functionCall, hpart, hcall, -, -, hid, hsignature⟩
    obtain rfl := Value.obj.inj hpart
    obtain rfl := Value.obj.inj (Option.some.inj hcall)
    refine ⟨fun x hx ↦ ?_, ?_⟩
    · have hfound := hid x hx
      cases id with
      | none => cases hfound
      | some y =>
          have heq : Value.str y = .str x := Option.some.inj hfound
          rw [Value.str.inj heq]
    · have hfound : signature.map Value.str = call.signature.map .str := by
        rw [← hsignature]
        cases signature <;> rfl
      exact Option.map_injective (fun _ _ ↦ Value.str.inj) hfound
  · rintro ⟨hid, hsignature⟩
    refine ⟨_, _, rfl, rfl, rfl, rfl, fun x hx ↦ ?_, ?_⟩
    · obtain rfl := hid x hx
      rfl
    · rw [← hsignature]
      cases signature <;> rfl

/-! ### What comes back -/

theorem clientId_ne_nil (call : GeminiCall) (index : ℕ) : call.clientId index ≠ [] := by
  unfold GeminiCall.clientId
  split
  · exact List.cons_ne_nil _ _
  · split_ifs with hempty
    · exact List.cons_ne_nil _ _
    · simpa using hempty

theorem metadata_clientId (hwide : ReadsAscii wide) (h : call.Carried) (index : ℕ) :
    geminiCallMetadata wide (.str (call.clientId index)) = (call.id, call.signature) := by
  unfold GeminiCall.Carried at h
  unfold GeminiCall.clientId
  cases hsignature : call.signature with
  | none =>
      rw [hsignature] at h
      dsimp only at h ⊢
      rw [h]
      exact geminiCallMetadata_synthesizedId hwide call.name index
  | some signature =>
      rw [hsignature] at h
      obtain ⟨hne, hid, hfits⟩ := h
      obtain ⟨c, rest, rfl⟩ := List.exists_cons_of_ne_nil hne
      dsimp only
      rw [geminiCallMetadata_capsule _ hne, if_pos hfits]
      rcases hid' : call.id with _ | _ | ⟨d, id⟩
      · rfl
      · exact absurd hid' hid
      · rfl

/-- A call comes back whole exactly if it is carried. -/
theorem sentBack_iff (hwide : ReadsAscii wide) (call : GeminiCall) (index : ℕ) :
    call.SentBack (call.part (geminiCallMetadata wide (.str (call.clientId index)))) ↔
      call.Carried := by
  rw [sentBack_part_iff]
  refine ⟨fun ⟨hid, hsignature⟩ ↦ ?_, fun h ↦ ?_⟩
  · unfold GeminiCall.Carried
    rcases hsigned : call.signature with _ | _ | ⟨c, signature⟩
    · rw [hsigned] at hsignature
      dsimp only
      by_contra hne
      obtain ⟨id, hcall⟩ := Option.ne_none_iff_exists'.mp hne
      have hnone := geminiCallMetadata_fst_eq hsignature
      rw [hid id hcall] at hnone
      cases hnone
    · rw [hsigned] at hsignature
      exact absurd hsignature (geminiCallMetadata_snd_ne _)
    · unfold GeminiCall.clientId at hid hsignature
      simp only [hsigned] at hid hsignature
      rw [geminiCallMetadata_capsule _ (List.cons_ne_nil _ _)] at hid hsignature
      by_cases hfits : CapsuleFits (call.id.getD []) (c :: signature)
      · rw [if_pos hfits] at hid
        refine ⟨List.cons_ne_nil _ _, fun hempty ↦ ?_, hfits⟩
        have hlost := hid [] hempty
        rw [hempty] at hlost
        cases hlost
      · rw [if_neg hfits] at hsignature
        cases hsignature
  · rw [metadata_clientId hwide h]
    exact ⟨fun _ ↦ id, rfl⟩

theorem callPartsOf_assistantTurn (wide : List ℕ → Option Text) (U : Unicode) (content : Value)
    {calls : List (GeminiCall × ℕ)}
    (h : ∀ c ∈ calls, JsonText.Written (.obj c.1.args)) :
    ∃ entry, openaiMsgToGemini wide U
        (assistantTurn content (calls.map fun c ↦ c.1.toolCall c.2)) none = some (some entry) ∧
      callPartsOf entry =
        calls.map fun c ↦ c.1.part (geminiCallMetadata wide (.str (c.1.clientId c.2))) := by
  cases calls with
  | nil => exact ⟨_, rfl, rfl⟩
  | cons c calls =>
      have hparts : callParts wide (((c :: calls).map fun c ↦ c.1.toolCall c.2).map Value.obj) =
          some ((c :: calls).map fun c ↦
            c.1.part (geminiCallMetadata wide (.str (c.1.clientId c.2)))) := by
        rw [List.map_map]
        exact callParts_toolCalls h
      have hmessage : callsMessage wide (assistantTurn content
          ((c :: calls).map fun c ↦ c.1.toolCall c.2)) =
            some [(roleKey, .str "model".toList), (partsKey, .arr (textParts (some content) ++
              (c :: calls).map fun c ↦
                c.1.part (geminiCallMetadata wide (.str (c.1.clientId c.2)))))] := by
        unfold callsMessage
        have hitems : itemsOf (getOr (assistantTurn content
            ((c :: calls).map fun c ↦ c.1.toolCall c.2)) toolCallsKey .null) =
              some (((c :: calls).map fun c ↦ c.1.toolCall c.2).map Value.obj) := rfl
        rw [hitems]
        dsimp only [Option.bind_eq_bind, Option.bind_some]
        rw [hparts]
        rfl
      refine ⟨_, congrArg (Option.map some) hmessage, ?_⟩
      change (textParts (some content) ++ _).filter isCallPart = _
      rw [List.filter_append]
      have htext : (textParts (some content)).filter isCallPart = [] := by
        unfold textParts
        split <;> rfl
      rw [htext, List.nil_append, List.filter_eq_self]
      intro part hpart
      obtain ⟨c', -, rfl⟩ := List.mem_map.mp hpart
      rfl

/-! ### Names of results -/

/-- What `openai_tool_call_names` adds for a call of a reply. -/
def addName (names : CallNames) (c : GeminiCall × ℕ) : CallNames :=
  if c.1.name = [] then names else set names (c.1.clientId c.2) c.1.name

theorem indexCall_toolCall (names : CallNames) (c : GeminiCall × ℕ) :
    indexCall names (.obj (c.1.toolCall c.2)) = addName names c := by
  obtain ⟨d, id, hid⟩ := List.exists_cons_of_ne_nil (clientId_ne_nil c.1 c.2)
  unfold addName GeminiCall.toolCall
  rw [hid]
  cases c.1.name <;> rfl

theorem openaiToolCallNames_assistantTurn (calls : List (GeminiCall × ℕ)) (content : Value) :
    openaiToolCallNames [.obj (assistantTurn content (calls.map fun c ↦ c.1.toolCall c.2))] =
      calls.foldl addName [] := by
  change ((calls.map fun c ↦ c.1.toolCall c.2).map Value.obj).foldl indexCall [] = _
  rw [List.map_map, List.foldl_map]
  exact congrArg (fun f ↦ calls.foldl f []) (funext₂ indexCall_toolCall)

/-- Where every call with the id has the same name, that name is found. -/
theorem lookup_foldl_addName {calls : List (GeminiCall × ℕ)} {c : GeminiCall × ℕ} (hc : c ∈ calls)
    (h : ∀ c' ∈ calls, c'.1.clientId c'.2 = c.1.clientId c.2 → c'.1.name = c.1.name) :
    ((calls.foldl addName []).lookup (c.1.clientId c.2)).getD [] = c.1.name := by
  have hfound : ∀ calls : List (GeminiCall × ℕ),
      (∀ c' ∈ calls, c'.1.clientId c'.2 = c.1.clientId c.2 → c'.1.name = c.1.name) →
      (calls.foldl addName []).lookup (c.1.clientId c.2) = some c.1.name ∨
        (calls.foldl addName []).lookup (c.1.clientId c.2) = none ∧
          ∀ c' ∈ calls, c'.1.clientId c'.2 = c.1.clientId c.2 → c'.1.name = [] := by
    intro calls h
    induction calls using List.reverseRecOn with
    | nil => exact .inr ⟨rfl, nofun⟩
    | append_singleton calls last ih =>
        have hlast := h last (List.mem_append_right _ List.mem_cons_self)
        replace ih := ih fun c' hc' ↦ h c' (List.mem_append_left _ hc')
        rw [List.foldl_append, List.foldl_cons, List.foldl_nil, addName]
        split_ifs with hname
        · refine ih.imp id fun ⟨hnone, hall⟩ ↦ ⟨hnone, fun c' hc' hid ↦ ?_⟩
          rcases List.mem_append.mp hc' with hc' | hc'
          · exact hall c' hc' hid
          · rw [List.mem_singleton.mp hc']
            exact hname
        · by_cases hsame : last.1.clientId last.2 = c.1.clientId c.2
          · rw [hsame, lookup_set, hlast hsame]
            exact .inl rfl
          · rw [lookup_set_of_ne (Ne.symm hsame)]
            refine ih.imp id fun ⟨hnone, hall⟩ ↦ ⟨hnone, fun c' hc' hid ↦ ?_⟩
            rcases List.mem_append.mp hc' with hc' | hc'
            · exact hall c' hc' hid
            · rw [List.mem_singleton.mp hc'] at hid
              exact absurd hid hsame
  rcases hfound calls h with hsome | ⟨hnone, hall⟩
  · rw [hsome]
    rfl
  · rw [hnone, hall c hc rfl]
    rfl

theorem responds_toolEcho_iff (names : CallNames) (call : GeminiCall) (index : ℕ) (name : Text)
    (output : Value) :
    (∃ entry, openaiMsgToGemini wide U (toolEcho (.obj (call.toolCall index)) output) (some names) =
      some (some entry) ∧ Responds name entry) ↔
        (names.lookup (call.clientId index)).getD [] = name := by
  constructor
  · rintro ⟨entry, hentry, response, hparts⟩
    obtain rfl := Option.some.inj (Option.some.inj hentry)
    have hpart := List.singleton_inj.mp (Value.arr.inj (Option.some.inj hparts))
    have hresponse := List.singleton_inj.mp (Value.obj.inj hpart)
    have hfields := Value.obj.inj (Prod.mk.inj hresponse).2
    exact Value.str.inj (Prod.mk.inj (List.cons_eq_cons.mp hfields).1).2
  · rintro rfl
    exact ⟨_, rfl, _, rfl⟩

end

/-! ### The condition -/

section

variable {wide : List ℕ → Option Text} {U : Unicode}

theorem written_of_mem_placedParts {parts : List (Option GeminiCall)} {values : List Value}
    (h : List.Forall₂ DescribesPart parts values) {i : ℕ} {c : GeminiCall × ℕ}
    (hc : c ∈ placedParts i parts) : JsonText.Written (.obj c.1.args) := by
  induction h generalizing i with
  | nil => cases hc
  | @cons part value parts values hpart _ ih =>
      cases part with
      | none => exact ih hc
      | some call =>
          rcases List.mem_cons.mp hc with rfl | hc
          · obtain ⟨fields, -, -, -, -, -, -, -, hargs⟩ := hpart
            exact hargs
          · exact ih hc

/-- The calls come back whole, and their names are found by their ids. -/
theorem toolTurns_roundTrip_iff_forall {parts : List (Option GeminiCall)} {values : List Value}
    (h : List.Forall₂ DescribesPart parts values) (content : Value) :
    RoundTrips wide U values parts.reduceOption content ↔
      (∀ c ∈ placedParts 0 parts,
        c.1.SentBack (c.1.part (geminiCallMetadata wide (.str (c.1.clientId c.2))))) ∧
      ∀ c ∈ placedParts 0 parts,
        (((placedParts 0 parts).foldl addName []).lookup (c.1.clientId c.2)).getD [] = c.1.name := by
  have htoolCalls := geminiPartsToToolCalls_eq (U := U) h 0
  obtain ⟨entry, hentry, hparts⟩ := callPartsOf_assistantTurn wide U content fun c hc ↦
    written_of_mem_placedParts h hc
  unfold RoundTrips
  rw [htoolCalls, ← map_fst_placedParts 0 parts]
  constructor
  · rintro ⟨toolCalls, htoolCalls, ⟨entry', hentry', hsent⟩, hresponds⟩
    obtain rfl := Option.some.inj htoolCalls
    rw [hentry] at hentry'
    obtain rfl := Option.some.inj (Option.some.inj hentry')
    rw [hparts, List.forall₂_map_left_iff, List.forall₂_map_right_iff, List.forall₂_same] at hsent
    rw [List.forall₂_map_left_iff, List.forall₂_map_right_iff, List.forall₂_same] at hresponds
    refine ⟨hsent, fun c hc ↦ ?_⟩
    rw [← openaiToolCallNames_assistantTurn _ content]
    exact (responds_toolEcho_iff _ c.1 c.2 c.1.name .null).mp (hresponds c hc .null)
  · rintro ⟨hsent, hnames⟩
    refine ⟨_, rfl, ⟨entry, hentry, ?_⟩, ?_⟩
    · rw [hparts, List.forall₂_map_left_iff, List.forall₂_map_right_iff, List.forall₂_same]
      exact hsent
    · rw [List.forall₂_map_left_iff, List.forall₂_map_right_iff, List.forall₂_same]
      intro c hc output
      rw [openaiToolCallNames_assistantTurn]
      exact (responds_toolEcho_iff _ c.1 c.2 c.1.name output).mpr (hnames c hc)

/-- Carried calls with one id for the client have the same id and signature, and without a signature
the same name. -/
theorem eq_of_clientId_eq (hwide : ReadsAscii wide) {call call' : GeminiCall} {index index' : ℕ}
    (h : call.Carried) (h' : call'.Carried) (heq : call.clientId index = call'.clientId index') :
    call.id = call'.id ∧ call.signature = call'.signature ∧
      (call.signature = none → call.name = call'.name) := by
  have hmetadata := metadata_clientId hwide h index
  rw [heq, metadata_clientId hwide h' index'] at hmetadata
  obtain ⟨hid, hsignature⟩ := Prod.mk.inj hmetadata
  refine ⟨hid.symm, hsignature.symm, fun hnone ↦ ?_⟩
  have hplain : ∀ call : GeminiCall, call.Carried → call.signature = none → ∀ index,
      call.clientId index = synthesizedId call.name index := by
    intro call hcarried hnone index
    unfold GeminiCall.Carried at hcarried
    rw [hnone] at hcarried
    unfold GeminiCall.clientId
    rw [hnone, hcarried]
    rfl
  rw [hplain call h hnone, hplain call' h' (hsignature.trans hnone)] at heq
  exact (synthesizedId_inj.mp heq).1

/-- Tool turns of Gemini come back from a client exactly if every call is carried, and no signature
with its id stands for two names. -/
theorem toolTurns_roundTrip_iff (hwide : ReadsAscii wide) {parts : List (Option GeminiCall)}
    {values : List Value} (h : List.Forall₂ DescribesPart parts values) (content : Value) :
    RoundTrips wide U values parts.reduceOption content ↔ Carried parts.reduceOption := by
  rw [toolTurns_roundTrip_iff_forall h]
  unfold Carried
  simp only [sentBack_iff hwide]
  rw [← map_fst_placedParts 0 parts, List.forall_mem_map]
  refine and_congr_right fun hcarried ↦ ⟨fun hnames ↦ ?_, fun hsame c hc ↦ ?_⟩
  · intro call hcall call' hcall' hsigned hid hsignature
    obtain ⟨c, hc, rfl⟩ := List.mem_map.mp hcall
    obtain ⟨c', hc', rfl⟩ := List.mem_map.mp hcall'
    have heq : c.1.clientId c.2 = c'.1.clientId c'.2 := by
      have hc := hcarried c hc
      unfold GeminiCall.Carried at hc
      unfold GeminiCall.clientId
      rw [← hid, ← hsignature]
      rcases hcase : c.1.signature with _ | _ | ⟨d, signature⟩
      · exact absurd hcase hsigned
      · rw [hcase] at hc
        exact absurd rfl hc.1
      · rfl
    rw [← hnames c hc, heq, hnames c' hc']
  · refine lookup_foldl_addName hc fun c' hc' heq ↦ ?_
    obtain ⟨hid, hsignature, hplain⟩ := eq_of_clientId_eq hwide (hcarried c' hc') (hcarried c hc) heq
    by_cases hsigned : c'.1.signature = none
    · exact hplain hsigned
    · exact hsame c'.1 (List.mem_map_of_mem hc') c.1 (List.mem_map_of_mem hc) hsigned hid hsignature

end

/-! ### A signed call and a plain id -/

/-- No text outside ASCII is sent. -/
def onlyAscii : List ℕ → Option Text := fun _ ↦ none

theorem readsAscii_onlyAscii : ReadsAscii onlyAscii := nofun

def lookUp (id signature : Option String) : GeminiCall :=
  ⟨"look_up".toList, [("query".toList, .str "a".toList)], id.map String.toList,
    signature.map String.toList⟩

/-- The part of a reply with a call. -/
def GeminiCall.replyPart (call : GeminiCall) : Value :=
  .obj (("functionCall".toList, .obj ([("name".toList, .str call.name), ("args".toList, .obj call.args)] ++
      call.id.toList.map fun id ↦ ("id".toList, .str id))) ::
    call.signature.toList.map fun text ↦ ("thoughtSignature".toList, .str text))

theorem describes_lookUp (id signature : Option String) :
    DescribesPart (some (lookUp id signature)) (lookUp id signature).replyPart := by
  refine ⟨_, rfl, _, rfl, rfl, rfl, ?_, ?_, ?_⟩
  · cases id <;> rfl
  · cases signature <;> rfl
  · exact ⟨List.nodup_singleton _, trivial, trivial⟩

theorem toolTurns_roundTrip_signedCall :
    RoundTrips onlyAscii asciiUnicode [(lookUp "id" "signature").replyPart]
      [lookUp "id" "signature"] .null :=
  (toolTurns_roundTrip_iff readsAscii_onlyAscii (.cons (describes_lookUp "id" "signature") .nil) .null).mpr (by
    refine ⟨fun call hcall ↦ ?_, fun call hcall call' hcall' _ _ _ ↦ ?_⟩
    · obtain rfl := List.mem_singleton.mp hcall
      exact ⟨by decide, by decide, by decide⟩
    · rw [List.mem_singleton.mp hcall, List.mem_singleton.mp hcall'])

/-- An id that the provider gave without a signature is lost. -/
theorem plainId_lost :
    ¬∀ (wide : List ℕ → Option Text) (U : Unicode) (parts : List (Option GeminiCall))
      (values : List Value) (content : Value), ReadsAscii wide →
      List.Forall₂ DescribesPart parts values →
        RoundTrips wide U values parts.reduceOption content := by
  intro h
  have hparts : List.Forall₂ DescribesPart [some (lookUp "id" none)]
      [(lookUp "id" none).replyPart] := .cons (describes_lookUp "id" none) .nil
  have htrips := h onlyAscii asciiUnicode _ _ .null readsAscii_onlyAscii hparts
  have hsent := ((toolTurns_roundTrip_iff_forall hparts .null).mp htrips).1 _ List.mem_cons_self
  have hlost := ((sentBack_part_iff _).mp hsent).1 "id".toList rfl
  have hmetadata : (geminiCallMetadata onlyAscii
      (.str ((lookUp "id" none).clientId 0))).1 = none := by decide
  rw [hmetadata] at hlost
  cases hlost

end Adapters
