import Morton.Net.Http

/-! Flat JSON objects as the services write them, and what `json_lookup` finds in them. The
lookup searches for the quoted key; an escaped value cannot contain one. -/
namespace Morton.Net
open Text

/-- One member of an object: a quoted and escaped text, or a number or truth value. -/
inductive Member
  | quoted (name text : HttpText)
  | bare (name value : HttpText)

namespace Member

def name : Member → HttpText
  | quoted name _ => name
  | bare name _ => name

def bytes : Member → HttpText
  | quoted name text => 34 :: (name ++ 34 :: 58 :: 34 :: (jsonEscape text ++ [34]))
  | bare name value => 34 :: (name ++ 34 :: 58 :: value)

/-- Neither a quote nor a control character, and no backslash. -/
def Plain (text : HttpText) : Prop := ∀ c ∈ text, c ≠ 34 ∧ c ≠ 92 ∧ 32 ≤ c

/-- Letters, as in the keys. -/
def Word (name : HttpText) : Prop := name ≠ [] ∧ ∀ c ∈ name, 97 ≤ c ∧ c ≤ 122

instance (text : HttpText) : Decidable (Plain text) :=
  inferInstanceAs (Decidable (∀ c ∈ text, c ≠ 34 ∧ c ≠ 92 ∧ 32 ≤ c))

instance (name : HttpText) : Decidable (Word name) :=
  inferInstanceAs (Decidable (name ≠ [] ∧ ∀ c ∈ name, 97 ≤ c ∧ c ≤ 122))

/-- A bare value ends at a comma or a brace, and does not look like a text. -/
def WellFormed : Member → Prop
  | quoted name _ => Word name
  | bare name value => Word name ∧ value ≠ [] ∧ ∀ c ∈ value, c ≠ 34 ∧ c ≠ 44 ∧ c ≠ 125

/-- What a lookup of the member gives. -/
def value : Member → HttpText
  | quoted _ text => text
  | bare _ value => value

end Member

open Member

theorem Member.Word.not_mem {name : HttpText} (h : Word name) {c : UInt8} (hc : c < 97) :
    c ∉ name := by
  intro hmem
  have hlow := (h.2 c hmem).1
  rw [UInt8.le_iff_toNat_le] at hlow
  rw [UInt8.lt_iff_toNat_lt] at hc
  omega

/-- A word is not found where something else than a letter stands. -/
theorem Member.Word.not_prefix {name : HttpText} (h : Word name) {c : UInt8} (hc : c < 97)
    (suffix rest : HttpText) : ¬ name ++ suffix <+: c :: rest := by
  intro hstarts
  cases name with
  | nil => exact h.1 rfl
  | cons a name =>
    have hsame := (List.cons_prefix_cons.mp hstarts).1
    exact h.not_mem hc (hsame ▸ List.mem_cons_self)

/-- Two words, each before a quote, are the same word. -/
theorem Member.Word.eq_of_prefix {key name suffix rest : HttpText} (hkey : Word key)
    (hname : Word name) (h : key ++ 34 :: suffix <+: name ++ 34 :: rest) : key = name := by
  have hquote : 34 ∉ key := hkey.not_mem (by decide)
  have hquote' : 34 ∉ name := hname.not_mem (by decide)
  clear hkey hname
  induction key generalizing name with
  | nil =>
    cases name with
    | nil => rfl
    | cons b name =>
      have hsame := (List.cons_prefix_cons.mp h).1
      exact absurd (hsame ▸ List.mem_cons_self) hquote'
  | cons a key ih =>
    cases name with
    | nil =>
      have hsame := (List.cons_prefix_cons.mp h).1
      exact absurd (hsame ▸ List.mem_cons_self) hquote
    | cons b name =>
      obtain ⟨hsame, htail⟩ := List.cons_prefix_cons.mp h
      rw [hsame, ih htail (fun hmem => hquote (List.mem_cons_of_mem _ hmem))
        (fun hmem => hquote' (List.mem_cons_of_mem _ hmem))]

theorem hexDigit_ne_quote {n : Nat} (h : n < 16) : escapeByte.hexDigit n ≠ 34 := by
  have hall : ∀ m : Fin 16, escapeByte.hexDigit m.val ≠ 34 := by decide
  exact hall ⟨n, h⟩

/-- Only the quote itself is escaped with a quote. -/
theorem quote_not_mem_escape {c : UInt8} (h : c ≠ 34) : 34 ∉ escapeByte c := by
  unfold escapeByte
  rw [if_neg h]
  split
  · decide
  split
  · decide
  split
  · decide
  split
  · decide
  split
  · rename_i hcontrol
    have hsmall : c.toNat < 32 := UInt8.lt_iff_toNat_lt.mp hcontrol
    rw [List.mem_append, not_or]
    refine ⟨by decide, fun hmem => ?_⟩
    simp only [List.mem_cons, List.not_mem_nil, or_false] at hmem
    cases hmem with
    | inl heq => exact hexDigit_ne_quote (by omega) heq.symm
    | inr heq => exact hexDigit_ne_quote (by omega) heq.symm
  · intro hmem
    exact h (List.mem_singleton.mp hmem).symm

/-- What is escaped starts with a backslash; the rest stays as it is. -/
theorem escapeByte_cases (c : UInt8) :
    (escapeByte c = [c] ∧ c ≠ 34 ∧ c ≠ 92 ∧ 32 ≤ c) ∨
      (∃ rest, escapeByte c = 92 :: rest) ∧ ¬ (c ≠ 34 ∧ c ≠ 92 ∧ 32 ≤ c) := by
  have hslash : ascii "\\u00" = 92 :: ascii "u00" := by decide
  unfold escapeByte
  split_ifs with hquote hback hten hthirteen hnine hcontrol
  · exact Or.inr ⟨⟨_, rfl⟩, fun h => h.1 hquote⟩
  · exact Or.inr ⟨⟨_, rfl⟩, fun h => h.2.1 hback⟩
  · exact Or.inr ⟨⟨_, rfl⟩, fun h => absurd h.2.2 (by rw [hten]; decide)⟩
  · exact Or.inr ⟨⟨_, rfl⟩, fun h => absurd h.2.2 (by rw [hthirteen]; decide)⟩
  · exact Or.inr ⟨⟨_, rfl⟩, fun h => absurd h.2.2 (by rw [hnine]; decide)⟩
  · refine Or.inr ⟨⟨_, by rw [hslash, List.cons_append]⟩, fun h => ?_⟩
    exact absurd h.2.2 (UInt8.not_le.mpr hcontrol)
  · exact Or.inl ⟨rfl, hquote, hback, UInt8.not_lt.mp hcontrol⟩

theorem jsonEscape_plain {text : HttpText} (h : Plain text) : jsonEscape text = text := by
  induction text with
  | nil => rfl
  | cons c text ih =>
    have hrest := ih fun d hd => h d (List.mem_cons_of_mem _ hd)
    unfold jsonEscape at hrest ⊢
    rw [List.flatMap_cons, hrest]
    cases escapeByte_cases c with
    | inl hsame => rw [hsame.1, List.singleton_append]
    | inr hescaped => exact absurd (h c List.mem_cons_self) hescaped.2

/-- No escaped text goes on as a key would: after letters, its quotes have a backslash before
them, and the one that ends it has no colon after it. -/
theorem escaped_hides_key {key : HttpText} (hquote : 34 ∉ key) (hslash : 92 ∉ key)
    (text rest : HttpText) : ¬ key ++ [34, 58] <+: jsonEscape text ++ 34 :: 44 :: rest := by
  induction text generalizing key with
  | nil =>
    intro h
    cases key with
    | nil =>
      have htail := (List.cons_prefix_cons.mp h).2
      exact absurd (List.cons_prefix_cons.mp htail).1 (by decide)
    | cons a key =>
      have hsame := (List.cons_prefix_cons.mp h).1
      exact hquote (hsame ▸ List.mem_cons_self)
  | cons c text ih =>
    intro h
    unfold jsonEscape at h
    rw [List.flatMap_cons, List.append_assoc] at h
    cases escapeByte_cases c with
    | inl hsame =>
      obtain ⟨hbyte, hne, -⟩ := hsame
      rw [hbyte] at h
      cases key with
      | nil => exact hne (List.cons_prefix_cons.mp h).1.symm
      | cons a key =>
        apply ih (fun hmem => hquote (List.mem_cons_of_mem _ hmem))
          (fun hmem => hslash (List.mem_cons_of_mem _ hmem))
        exact (List.cons_prefix_cons.mp h).2
    | inr hescaped =>
      obtain ⟨⟨tail, hbyte⟩, -⟩ := hescaped
      rw [hbyte] at h
      cases key with
      | nil => exact absurd (List.cons_prefix_cons.mp h).1 (by decide)
      | cons a key =>
        have hsame := (List.cons_prefix_cons.mp h).1
        exact hslash (hsame ▸ List.mem_cons_self)

theorem clear_escaped {key : HttpText} (hquote : 34 ∉ key) (hslash : 92 ∉ key)
    (text rest : HttpText) :
    Clear (34 :: (key ++ [34, 58])) (jsonEscape text) (34 :: 44 :: rest) := by
  induction text with
  | nil => exact clear_nil _ _
  | cons c text ih =>
    unfold jsonEscape at ih ⊢
    rw [List.flatMap_cons, clear_append]
    refine ⟨?_, ih⟩
    by_cases hc : c = 34
    · subst hc
      have hbyte : escapeByte 34 = [92, 34] := by decide
      rw [hbyte, clear_cons, clear_cons]
      refine ⟨fun h => absurd (List.cons_prefix_cons.mp h).1 (by decide), fun h => ?_, clear_nil _ _⟩
      exact escaped_hides_key hquote hslash text rest (List.cons_prefix_cons.mp h).2
    · exact clear_of_not_mem (quote_not_mem_escape hc) _

/-- The key does not start within another member. -/
theorem clear_member {key : HttpText} (hkey : Word key) {m : Member} (hm : m.WellFormed)
    (hne : m.name ≠ key) (rest : HttpText) :
    Clear (34 :: (key ++ [34, 58])) m.bytes (44 :: rest) := by
  have hquote : 34 ∉ key := hkey.not_mem (by decide)
  have hslash : 92 ∉ key := hkey.not_mem (by decide)
  cases m with
  | quoted name text =>
    have hname : Word name := hm
    rw [bytes, clear_cons, clear_append, clear_cons, clear_cons]
    refine ⟨fun h => hne ?_, clear_of_not_mem (hname.not_mem (by decide)) _, ?_⟩
    · rw [List.append_assoc] at h
      exact (hkey.eq_of_prefix hname (List.cons_prefix_cons.mp h).2).symm
    · rw [clear_cons]
      refine ⟨fun h => ?_, fun h => ?_, fun h => ?_, ?_⟩
      · exact hkey.not_prefix (c := 58) (by decide) _ _ (List.cons_prefix_cons.mp h).2
      · exact absurd (List.cons_prefix_cons.mp h).1 (by decide)
      · apply escaped_hides_key hquote hslash text rest
        simpa using (List.cons_prefix_cons.mp h).2
      · rw [clear_append, clear_cons]
        refine ⟨clear_escaped hquote hslash text rest, fun h => ?_, clear_nil _ _⟩
        exact hkey.not_prefix (by decide) _ _ (List.cons_prefix_cons.mp h).2
  | bare name value =>
    obtain ⟨hname, -, hvalue⟩ := hm
    rw [bytes, clear_cons, clear_append, clear_cons, clear_cons]
    refine ⟨fun h => hne ?_, clear_of_not_mem (hname.not_mem (by decide)) _, ?_⟩
    · rw [List.append_assoc] at h
      exact (hkey.eq_of_prefix hname (List.cons_prefix_cons.mp h).2).symm
    · refine ⟨fun h => ?_, fun h => ?_, ?_⟩
      · exact hkey.not_prefix (c := 58) (by decide) _ _ (List.cons_prefix_cons.mp h).2
      · exact absurd (List.cons_prefix_cons.mp h).1 (by decide)
      · exact clear_of_not_mem (fun hmem => (hvalue 34 hmem).1 rfl) _

/-- The members before the one looked up, each with its comma. -/
theorem clear_members {key : HttpText} (hkey : Word key) {before : List Member}
    (hbefore : ∀ m ∈ before, m.WellFormed ∧ m.name ≠ key) (rest : HttpText) :
    Clear (34 :: (key ++ [34, 58])) (before.flatMap fun m => m.bytes ++ [44]) rest := by
  induction before with
  | nil => exact clear_nil _ _
  | cons m before ih =>
    have hhead := hbefore m List.mem_cons_self
    rw [List.flatMap_cons, clear_append, clear_append]
    refine ⟨⟨clear_member hkey hhead.1 hhead.2 _, ?_⟩,
      ih fun n hn => hbefore n (List.mem_cons_of_mem _ hn)⟩
    exact clear_of_not_mem (by decide) _

/-- The members after the first, and the closing brace. -/
def objectTail : List Member → HttpText
  | [] => [125]
  | m :: rest => 44 :: (m.bytes ++ objectTail rest)

def objectText : List Member → HttpText
  | [] => [123, 125]
  | m :: rest => 123 :: (m.bytes ++ objectTail rest)

/-- A member is followed by a comma or the closing brace. -/
theorem objectTail_cases (members : List Member) :
    ∃ stop rest, (stop = 44 ∨ stop = 125) ∧ objectTail members = stop :: rest := by
  cases members with
  | nil => exact ⟨125, [], Or.inr rfl, rfl⟩
  | cons m rest => exact ⟨44, m.bytes ++ objectTail rest, Or.inl rfl, rfl⟩

theorem objectTail_append (before : List Member) (m : Member) (after : List Member) :
    objectTail (before ++ m :: after) =
      44 :: ((before.flatMap fun m => m.bytes ++ [44]) ++ (m.bytes ++ objectTail after)) := by
  induction before with
  | nil => rfl
  | cons n before ih =>
    rw [List.cons_append, objectTail, ih, List.flatMap_cons]
    simp

theorem objectText_append (before : List Member) (m : Member) (after : List Member) :
    objectText (before ++ m :: after) =
      123 :: ((before.flatMap fun m => m.bytes ++ [44]) ++ (m.bytes ++ objectTail after)) := by
  cases before with
  | nil => rfl
  | cons n before =>
    rw [List.cons_append, objectText, objectTail_append, List.flatMap_cons]
    simp

/-- A text that needs no escapes ends at its own quote. -/
theorem jsonValue_quoted {text : HttpText} (h : Plain text) (rest : HttpText) :
    jsonValue (34 :: (jsonEscape text ++ 34 :: rest)) = text := by
  have hno : 34 ∉ text := fun hmem => (h 34 hmem).1 rfl
  have hfind : find [34] (text ++ 34 :: rest) = some text.length :=
    find_of_clear (clear_of_not_mem hno _)
  rw [jsonEscape_plain h, jsonValue, if_pos rfl, hfind, Option.map_some, Option.getD_some,
    List.take_left]

theorem jsonValue_bare {value : HttpText} (hne : value ≠ [])
    (h : ∀ c ∈ value, c ≠ 34 ∧ c ≠ 44 ∧ c ≠ 125) {stop : UInt8} (hstop : stop = 44 ∨ stop = 125)
    (rest : HttpText) : jsonValue (value ++ stop :: rest) = value := by
  have htake : (value ++ stop :: rest).takeWhile (fun c => c != 44 && c != 125) = value := by
    rw [List.takeWhile_append_of_pos, List.takeWhile_cons_of_neg, List.append_nil]
    · cases hstop with
      | inl hcomma => rw [hcomma]; decide
      | inr hbrace => rw [hbrace]; decide
    · intro c hc
      obtain ⟨-, hcomma, hbrace⟩ := h c hc
      simp [hcomma, hbrace]
  cases value with
  | nil => exact absurd rfl hne
  | cons c value =>
    have hc : c ≠ 34 := (h c List.mem_cons_self).1
    rw [List.cons_append] at htake ⊢
    rw [jsonValue, if_neg hc, htake]

/-- The lookup of a key gives the value of the first member with that name. -/
theorem jsonLookup_object {before : List Member} {m : Member} (hm : m.WellFormed)
    (hbefore : ∀ n ∈ before, n.WellFormed ∧ n.name ≠ m.name)
    (hplain : ∀ name text, m = .quoted name text → Plain text) (after : List Member) :
    jsonLookup (objectText (before ++ m :: after)) m.name = m.value := by
  obtain ⟨stop, rest, hstop, htail⟩ := objectTail_cases after
  have hkey : Word m.name := by
    cases m with
    | quoted name text => exact hm
    | bare name value => exact hm.1
  let needle : HttpText := 34 :: (m.name ++ [34, 58])
  have hclear : Clear needle (123 :: before.flatMap fun m => m.bytes ++ [44])
      (m.bytes ++ stop :: rest) := by
    refine clear_cons.mpr ⟨fun h => ?_, clear_members hkey hbefore _⟩
    exact absurd (List.cons_prefix_cons.mp h).1 (by decide)
  obtain ⟨behind, hafter⟩ : ∃ behind, m.bytes ++ stop :: rest = needle ++ behind := by
    cases m with
    | quoted name text =>
      exact ⟨34 :: (jsonEscape text ++ 34 :: stop :: rest), by simp [needle, bytes, Member.name]⟩
    | bare name value => exact ⟨value ++ stop :: rest, by simp [needle, bytes, Member.name]⟩
  have htext : objectText (before ++ m :: after) =
      (123 :: before.flatMap fun m => m.bytes ++ [44]) ++ (needle ++ behind) := by
    rw [← hafter, objectText_append, htail]
    rfl
  rw [hafter] at hclear
  unfold jsonLookup
  dsimp only
  rw [htext, find_of_clear hclear, Option.map_some, Option.getD_some, ← List.append_assoc,
    ← List.length_append, List.drop_left]
  cases m with
  | quoted name text =>
    have hbehind : behind = 34 :: (jsonEscape text ++ 34 :: stop :: rest) := by
      simpa [needle, bytes, Member.name] using hafter.symm
    rw [hbehind]
    exact jsonValue_quoted (hplain name text rfl) (stop :: rest)
  | bare name value =>
    have hbehind : behind = value ++ stop :: rest := by
      simpa [needle, bytes, Member.name] using hafter.symm
    rw [hbehind]
    exact jsonValue_bare hm.2.1 hm.2.2 hstop rest

end Morton.Net
