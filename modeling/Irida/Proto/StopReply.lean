import Irida.Proto.Frame
import Irida.Proto.Packets

/-!
# Stop replies, position by position

`parseStopReply` is `parse_stop_reply` on lists.  Here it is once more, as the source has it: with
positions in the payload, the searches of `std::string_view`, and every access checked
(`parseStopReplyAt`).  The two agree on every payload, so no access is out of range
(`parseStopReplyAt_eq`).

The fields of a `T` reply are read back as they were joined (`parseInfo_joinInfo`), whether or not
the last of them ends with a semicolon.
-/

namespace Irida.Proto

/-! ## Views -/

/-- `std::string_view::substr`.  A number of bytes that is `none` stands for `npos`; a position
beyond the end throws, which is `none`. -/
def substr (s : Bytes) (pos : ℕ) (n : Option ℕ) : Option Bytes :=
  if pos ≤ s.length then
    match n with
    | none => some (s.drop pos)
    | some n => some ((s.drop pos).take n)
  else none

/-- `std::string_view::find` of a character; `none` stands for `npos`. -/
def find (s : Bytes) (c : Byte) (pos : ℕ) : Option ℕ :=
  ((s.drop pos).findIdx? (· = c)).map (pos + ·)

section Views

variable {s : Bytes} {c : Byte} {pos found : ℕ}

theorem find_eq_none (h : find s c pos = none) : c ∉ s.drop pos := by
  rw [find, Option.map_eq_none_iff, List.findIdx?_eq_none_iff] at h
  intro hmem
  exact absurd (h c hmem) (by simp)

theorem find_eq_some (h : find s c pos = some found) :
    pos ≤ found ∧ found < s.length ∧ c ∉ (s.drop pos).take (found - pos) ∧
      s.drop pos = (s.drop pos).take (found - pos) ++ c :: s.drop (found + 1) := by
  obtain ⟨offset, hidx, rfl⟩ := Option.map_eq_some_iff.mp h
  obtain ⟨hlt, hhere, hbefore⟩ := List.findIdx?_eq_some_iff_getElem.mp hidx
  have hlen := hlt
  rw [List.length_drop] at hlen
  have hc : (s.drop pos)[offset] = c := by simpa using hhere
  rw [Nat.add_sub_cancel_left]
  refine ⟨Nat.le_add_right _ _, by omega, fun hmem => ?_, ?_⟩
  · obtain ⟨k, hk, hget⟩ := List.mem_take_iff_getElem.mp hmem
    exact absurd hget (by simpa using hbefore k (by omega))
  · conv_lhs => rw [← List.take_append_drop offset (s.drop pos)]
    rw [List.drop_eq_getElem_cons hlt, hc, List.drop_drop, Nat.add_assoc]

end Views

/-! ## The parser -/

/-- `parse_hex_byte` with its accesses. -/
def parseHexByteAt (s : Bytes) : Option (Option ℕ) :=
  if s.length < 2 then some none
  else do
    let hi ← s[0]?
    let lo ← s[1]?
    match hexval hi, hexval lo with
    | some hi, some lo => some (some (16 * hi + lo))
    | _, _ => some none

/-- `r.info.emplace_back`, if the field has a colon. -/
def pushField (field : Bytes) (info : List (Bytes × Bytes)) : Option (List (Bytes × Bytes)) :=
  match find field (byte ':') 0 with
  | none => some info
  | some colon => do
    let key ← substr field 0 (some colon)
    let val ← substr field (colon + 1) none
    some (info ++ [(key, val)])

/-- The field loop of `parse_stop_reply`, from position `i` on. -/
def fieldLoop (rest : Bytes) (i : ℕ) (info : List (Bytes × Bytes)) :
    Option (List (Bytes × Bytes)) :=
  if i < rest.length then do
    let field ← substr rest i ((find rest (byte ';') i).map (· - i))
    let info ← pushField field info
    match h : find rest (byte ';') i with
    | none => some info
    | some semi => fieldLoop rest (semi + 1) info
  else some info
termination_by rest.length - i
decreasing_by
  have hsemi := find_eq_some h
  omega

/-- The fields of a reply; a short one has none. -/
def fieldsView (p : Bytes) : Option Bytes :=
  if p.length > 3 then substr p 3 none else some []

/-- `parse_stop_reply` with its accesses; `none` stands for one that is out of range. -/
def parseStopReplyAt (p : Bytes) : Option StopReply :=
  if p = [] then some {}
  else do
    let t ← p[0]?
    let tail ← substr p 1 none
    if t = byte 'O' then some { kind := .output, output := tail }
    else
      let digits ← parseHexByteAt tail
      let code : ℤ := digits.getD 0
      if t = byte 'S' then some { kind := .signal, code := code }
      else if t = byte 'T' then
        let rest ← fieldsView p
        let info ← fieldLoop rest 0 []
        some { kind := .signal, code := code, info := info }
      else if t = byte 'W' then some { kind := .exited, code := code }
      else if t = byte 'X' then some { kind := .terminated, code := code }
      else some { kind := .unknown, code := code }

/-! ## No access is out of range -/

theorem parseHexByteAt_eq (s : Bytes) : parseHexByteAt s = some (parseHexByte s) := by
  match s with
  | [] => rfl
  | [_] => rfl
  | hi :: lo :: rest =>
      rw [parseHexByteAt, if_neg (by simp)]
      simp only [parseHexByte, List.getElem?_cons_zero, List.getElem?_cons_succ,
        Option.bind_eq_bind, Option.bind_some]
      cases hexval hi <;> cases hexval lo <;> rfl

theorem parseInfoField_of_notMem {field : Bytes} (h : byte ':' ∉ field) :
    parseInfoField field = none := by
  rw [parseInfoField, List.span_eq_takeWhile_dropWhile, dropWhile_notMem h]

theorem parseInfoField_append {key : Bytes} (h : byte ':' ∉ key) (val : Bytes) :
    parseInfoField (key ++ byte ':' :: val) = some (key, val) := by
  rw [parseInfoField, List.span_eq_takeWhile_dropWhile, (dropWhile_append_cons h val).1,
    (dropWhile_append_cons h val).2]

theorem pushField_eq (field : Bytes) (info : List (Bytes × Bytes)) :
    pushField field info = some (info ++ (parseInfoField field).toList) := by
  rw [pushField]
  cases hfind : find field (byte ':') 0 with
  | none =>
      have hnone := parseInfoField_of_notMem (find_eq_none hfind)
      rw [List.drop_zero] at hnone
      simp [hnone]
  | some colon =>
      obtain ⟨-, hlt, hkey, hcut⟩ := find_eq_some hfind
      rw [List.drop_zero, Nat.sub_zero] at hkey hcut
      have hsome := parseInfoField_append hkey (field.drop (colon + 1))
      rw [← hcut] at hsome
      simp [substr, hsome, Nat.succ_le_of_lt hlt]

theorem parseInfo_append {field rest : Bytes} (h : byte ';' ∉ field) :
    parseInfo (field ++ byte ';' :: rest) = (parseInfoField field).toList ++ parseInfo rest := by
  rw [parseInfo, List.splitOn_append_cons_self_of_not_mem h, List.filterMap_cons, parseInfo]
  cases parseInfoField field <;> rfl

theorem parseInfo_of_notMem {field : Bytes} (h : byte ';' ∉ field) :
    parseInfo field = (parseInfoField field).toList := by
  rw [parseInfo, List.splitOn_eq_singleton h, List.filterMap_cons, List.filterMap_nil]
  cases parseInfoField field <;> rfl

/-- The loop reads the fields that are left. -/
theorem fieldLoop_eq (rest : Bytes) (i : ℕ) (info : List (Bytes × Bytes)) :
    fieldLoop rest i info = some (info ++ parseInfo (rest.drop i)) := by
  induction hn : rest.length - i using Nat.strong_induction_on generalizing i info with
  | _ n ih =>
      rw [fieldLoop]
      by_cases hi : i < rest.length
      swap
      · rw [if_neg hi, List.drop_eq_nil_of_le (Nat.le_of_not_lt hi)]
        simp [parseInfo, parseInfoField]
      rw [if_pos hi]
      cases hfind : find rest (byte ';') i with
      | none =>
          have hfield : substr rest i none = some (rest.drop i) := if_pos hi.le
          rw [Option.map_none, hfield, parseInfo_of_notMem (find_eq_none hfind)]
          simp only [Option.bind_eq_bind, Option.bind_some, pushField_eq]
      | some semi =>
          obtain ⟨hle, hlt, hfield, hcut⟩ := find_eq_some hfind
          have hsub : substr rest i (some (semi - i)) = some ((rest.drop i).take (semi - i)) :=
            if_pos hi.le
          have hinfo : parseInfo (rest.drop i) =
              (parseInfoField ((rest.drop i).take (semi - i))).toList ++
                parseInfo (rest.drop (semi + 1)) := by
            conv_lhs => rw [hcut]
            exact parseInfo_append hfield
          rw [Option.map_some, hsub, hinfo]
          simp only [Option.bind_eq_bind, Option.bind_some, pushField_eq]
          rw [ih _ (by omega) _ _ rfl, List.append_assoc]

theorem parseStopReplyAt_eq (p : Bytes) : parseStopReplyAt p = some (parseStopReply p) := by
  cases p with
  | nil => rfl
  | cons t tail =>
      have htail : substr (t :: tail) 1 none = some tail := by simp [substr]
      have hrest : fieldsView (t :: tail) = some (tail.drop 2) := by
        rw [fieldsView, List.length_cons]
        split
        · exact if_pos (by rw [List.length_cons]; omega)
        · rw [List.drop_eq_nil_of_le (by omega)]
      rw [parseStopReplyAt, if_neg (List.cons_ne_nil _ _), parseStopReply]
      simp only [List.getElem?_cons_zero, Option.bind_eq_bind, Option.bind_some, htail, hrest,
        parseHexByteAt_eq, fieldLoop_eq, List.drop_zero, List.nil_append]
      repeat' split
      all_goals rfl

/-! ## The fields are read back -/

/-- `key:val`. -/
def joinField (field : Bytes × Bytes) : Bytes :=
  field.1 ++ byte ':' :: field.2

/-- The fields of a reply, joined by semicolons. -/
def joinInfo (fields : List (Bytes × Bytes)) : Bytes :=
  [byte ';'].intercalate (fields.map joinField)

/-- A key without colons and semicolons, and a value without semicolons. -/
def Separable (field : Bytes × Bytes) : Prop :=
  byte ':' ∉ field.1 ∧ byte ';' ∉ field.1 ∧ byte ';' ∉ field.2

theorem notMem_joinField {field : Bytes × Bytes} (h : Separable field) :
    byte ';' ∉ joinField field := by
  rw [joinField, List.mem_append, List.mem_cons]
  rintro (hkey | hcolon | hval)
  · exact h.2.1 hkey
  · exact absurd hcolon (by decide)
  · exact h.2.2 hval

theorem filterMap_joinField {fields : List (Bytes × Bytes)} (h : ∀ f ∈ fields, Separable f) :
    (fields.map joinField).filterMap parseInfoField = fields := by
  induction fields with
  | nil => rfl
  | cons field fields ih =>
      rw [List.forall_mem_cons] at h
      rw [List.map_cons, List.filterMap_cons, joinField, parseInfoField_append h.1.1, ih h.2]

theorem parseInfo_concat (rest : Bytes) : parseInfo (rest ++ [byte ';']) = parseInfo rest := by
  rw [parseInfo, List.splitOn_append_cons_self, List.filterMap_append, ← parseInfo]
  simp [parseInfoField]

theorem parseInfo_joinInfo {fields : List (Bytes × Bytes)} (h : ∀ f ∈ fields, Separable f) :
    parseInfo (joinInfo fields) = fields := by
  by_cases hnil : fields = []
  · subst hnil
    rfl
  · rw [parseInfo, joinInfo, List.splitOn_intercalate, filterMap_joinField h]
    · intro l hl
      obtain ⟨field, hfield, rfl⟩ := List.mem_map.mp hl
      exact notMem_joinField (h field hfield)
    · simpa using hnil

theorem parseInfo_joinInfo_final {fields : List (Bytes × Bytes)} {final : Bytes}
    (h : ∀ f ∈ fields, Separable f) (hfinal : final = [] ∨ final = [byte ';']) :
    parseInfo (joinInfo fields ++ final) = fields := by
  rcases hfinal with rfl | rfl
  · rw [List.append_nil, parseInfo_joinInfo h]
  · rw [parseInfo_concat, parseInfo_joinInfo h]

/-- A `T` reply is read back. -/
theorem parseStopReply_joinInfo {code : ℕ} {hi lo : Byte} {fields : List (Bytes × Bytes)}
    {final : Bytes} (hhi : hexval hi = some (code / 16)) (hlo : hexval lo = some (code % 16))
    (h : ∀ f ∈ fields, Separable f) (hfinal : final = [] ∨ final = [byte ';']) :
    parseStopReply (byte 'T' :: hi :: lo :: (joinInfo fields ++ final)) =
      { kind := .signal, code := code, info := fields } := by
  have hcode : parseHexByte (hi :: lo :: (joinInfo fields ++ final)) = some code := by
    simp only [parseHexByte, hhi, hlo, Nat.div_add_mod]
  rw [parseStopReply, if_neg (by decide), if_neg (by decide), if_pos rfl, hcode,
    List.drop_succ_cons, List.drop_succ_cons, List.drop_zero, parseInfo_joinInfo_final h hfinal]
  rfl

/-- **The parser is total, and reads a `T` reply back.**  On no payload is an access out of range,
and two digits of a code in either case and joined fields give that code and these fields, with a
semicolon at the end or without. -/
theorem parseStopReply_total_and_roundTrip :
    (∀ p, parseStopReplyAt p = some (parseStopReply p)) ∧
    ∀ (code : ℕ) (hi lo : Byte) (fields : List (Bytes × Bytes)) (final : Bytes), code < 256 →
      hexval hi = some (code / 16) → hexval lo = some (code % 16) → (∀ f ∈ fields, Separable f) →
      final = [] ∨ final = [byte ';'] →
      parseStopReplyAt (byte 'T' :: hi :: lo :: (joinInfo fields ++ final)) =
        some { kind := .signal, code := code, info := fields } := by
  refine ⟨parseStopReplyAt_eq, fun code hi lo fields final _ hhi hlo hfields hfinal => ?_⟩
  rw [parseStopReplyAt_eq, parseStopReply_joinInfo hhi hlo hfields hfinal]

/-- A value may contain colons, and keys and values may be empty. -/
theorem parseStopReply_total_and_roundTrip_fields :
    (∀ p, parseStopReplyAt p = some (parseStopReply p)) ∧
    parseStopReplyAt (byte 'T' :: byte '0' :: byte 'B' ::
        (joinInfo [(ascii "thread", ascii "p1:2"), ([], [])] ++ [byte ';'])) =
      some { kind := .signal, code := (11 : ℕ),
             info := [(ascii "thread", ascii "p1:2"), ([], [])] } :=
  ⟨parseStopReply_total_and_roundTrip.1,
    parseStopReply_total_and_roundTrip.2 11 (byte '0') (byte 'B') _ _ (by decide) (by decide)
      (by decide) (by simp only [Separable]; decide) (Or.inr rfl)⟩

end Irida.Proto
