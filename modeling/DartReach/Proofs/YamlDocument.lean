import DartReach.Proofs.YamlSource
import DartReach.Yaml.Value

/-!
# Documents read back

A document of short names and printable text is read back: its tokens are one mapping, the nodes of the
mapping are the entries, and their values are what was written under each name. Nodes are known up to the
lines they start in.
-/

namespace DartReach.Yaml

set_option autoImplicit false

/-! ### Nodes -/

namespace Node

/-- A scalar that was written as its characters are written. -/
def ShowsText (node : Node) (cs : List Char) : Prop :=
  ∃ line, node = .scalar line (scalarTag [] (Writer.styleOf cs) cs) cs

/-- What was written under a name. -/
inductive Shows : Node → Writer.Entry → Prop where
  | string {node : Node} {s : Bytes} (h : node.ShowsText (Utf8.decode s)) : Shows node (.string s)
  | strings (line : Nat) {nodes : List Node} {items : List Bytes}
      (h : List.Forall₂ ShowsText nodes (items.map Utf8.decode)) :
      Shows (.sequence line TagName.sequence nodes) (.strings items)
  | flag (line : Nat) (on : Bool) :
      Shows (.scalar line (scalarTag [] .plain (Writer.flagWord on)) (Writer.flagWord on)) (.flag on)

/-- A name and what was written under it. -/
structure ShowsEntry (entry : Node × Node) (e : String × Writer.Entry) : Prop where
  key : ∃ line, entry.1 = .scalar line (scalarTag [] .plain e.1.toList) e.1.toList
  value : entry.2.Shows e.2

end Node

namespace Reader

/-- The kinds of the tokens that are left. -/
def kinds (r : Reader) : List Token.Kind := r.tokens.map Token.kind

variable {r : Reader}

theorem peek_eq {k : Token.Kind} {ks : List Token.Kind} (h : r.kinds = k :: ks) :
    ∃ start, r.peek = .ok ⟨k, start⟩ ∧ r.skip.kinds = ks := by
  obtain ⟨t, ts, htokens, rfl, rfl⟩ := List.map_eq_cons_iff.mp h
  refine ⟨t.start, ?_, ?_⟩
  · simp only [peek, htokens]
  · simp only [kinds, skip, htokens, List.drop_succ_cons, List.drop_zero]

theorem properties_eq {k : Token.Kind} {start : Mark} (h : r.peek = .ok ⟨k, start⟩)
    (hanchor : ∀ name, k ≠ .anchor name) (htag : ∀ handle suffix, k ≠ .tag handle suffix) :
    r.properties = .ok (⟨start, [], []⟩, r) := by
  simp only [properties, h, bind, Except.bind]

theorem node_scalar {cs : List Char} {style : Style} {ks : List Token.Kind}
    (h : r.kinds = .scalar cs style :: ks) (inBlock looseDash : Bool) (n : Nat) :
    (∃ line, node inBlock looseDash (n + 1) r = .ok (.scalar line (Node.scalarTag [] style cs) cs, r.skip)) ∧
      r.skip.kinds = ks := by
  obtain ⟨start, hpeek, hskip⟩ := peek_eq h
  have hprops := properties_eq hpeek (by simp) (by simp)
  refine ⟨⟨start.line + 1, ?_⟩, hskip⟩
  rw [node]
  simp only [hpeek, hprops, bind, Except.bind]
  rfl

theorem node_blockSequence {ks : List Token.Kind} (h : r.kinds = .blockSequence :: ks) {n : Nat}
    {items : List Node} {r' : Reader} (hread : ∀ began, blockSequence began n r.skip [] = .ok (items, r'))
    (looseDash : Bool) :
    ∃ line, node true looseDash (n + 1) r = .ok (.sequence line TagName.sequence items, r') := by
  obtain ⟨start, hpeek, hskip⟩ := peek_eq h
  have hprops := properties_eq hpeek (by simp) (by simp)
  refine ⟨start.line + 1, ?_⟩
  rw [node]
  simp only [hpeek, hprops, bind, Except.bind, define, close, List.isEmpty_nil, if_true, hread]
  rfl

theorem node_blockMapping {ks : List Token.Kind} (h : r.kinds = .blockMapping :: ks) {n : Nat}
    {entries : List (Node × Node)} {r' : Reader}
    (hread : ∀ began, blockMapping began n r.skip [] = .ok (entries, r')) (looseDash : Bool) :
    ∃ line, node true looseDash (n + 1) r = .ok (.mapping line TagName.mapping entries, r') := by
  obtain ⟨start, hpeek, hskip⟩ := peek_eq h
  have hprops := properties_eq hpeek (by simp) (by simp)
  refine ⟨start.line + 1, ?_⟩
  rw [node]
  simp only [hpeek, hprops, bind, Except.bind, define, close, List.isEmpty_nil, if_true, hread]
  rfl

theorem node_brackets {ks : List Token.Kind} (h : r.kinds = .openBracket :: .closeBracket :: ks)
    (inBlock looseDash : Bool) (n : Nat) :
    (∃ line, node inBlock looseDash (n + 2) r = .ok (.sequence line TagName.sequence [], r.skip.skip)) ∧
      r.skip.skip.kinds = ks := by
  obtain ⟨start, hpeek, hskip⟩ := peek_eq h
  obtain ⟨_, hclose, hskip⟩ := peek_eq hskip
  have hprops := properties_eq hpeek (by simp) (by simp)
  have hread : ∀ began, flowSequence began true (n + 1) r.skip [] = .ok ([], r.skip.skip) := by
    intro began
    rw [flowSequence]
    simp only [hclose, bind, Except.bind, if_true]
    rfl
  refine ⟨⟨start.line + 1, ?_⟩, hskip⟩
  rw [node]
  simp only [hpeek, hprops, bind, Except.bind, define, close, List.isEmpty_nil, if_true, hread]
  rfl

/-- The items of a list, each behind its dash. -/
theorem blockSequence_items {items : List (List Char)} {ks : List Token.Kind} {n : Nat} (rev : List Node)
    (h : r.kinds = items.flatMap Writer.itemKinds ++ .blockEnd :: ks) (hn : items.length < n) :
    ∃ nodes r', (∀ began, blockSequence began n r rev = .ok (rev.reverse ++ nodes, r')) ∧ r'.kinds = ks ∧
      List.Forall₂ Node.ShowsText nodes items := by
  induction items generalizing r n rev with
  | nil =>
    obtain ⟨n, rfl⟩ := Nat.exists_eq_add_of_lt hn
    obtain ⟨start, hpeek, hskip⟩ := peek_eq h
    refine ⟨[], r.skip, ?_, hskip, .nil⟩
    intro began
    rw [blockSequence]
    simp only [hpeek, bind, Except.bind, List.append_nil]
  | cons cs items ih =>
    obtain ⟨m, rfl⟩ : ∃ m, n = m + 2 := ⟨n - 2, by simp at hn; omega⟩
    obtain ⟨start, hdash, hitem⟩ := peek_eq h
    obtain ⟨_, hpeek, _⟩ := peek_eq hitem
    obtain ⟨⟨line, hnode⟩, hrest⟩ := node_scalar hitem true false m
    obtain ⟨nodes, r', hread, hkinds, hshows⟩ :=
      ih (n := m + 1) (Node.scalar line (Node.scalarTag [] (Writer.styleOf cs) cs) cs :: rev) hrest
        (by simpa using hn)
    refine ⟨_ :: nodes, r', ?_, hkinds, .cons ⟨line, rfl⟩ hshows⟩
    intro began
    rw [blockSequence]
    simp only [hdash, hpeek, bind, Except.bind, endsItem, Bool.false_eq_true, if_false, hnode, hread,
      List.reverse_cons, List.append_assoc, List.singleton_append]

theorem length_items (items : List (List Char)) :
    (items.flatMap Writer.itemKinds).length = 2 * items.length := by
  induction items with
  | nil => rfl
  | cons cs items ih =>
    rw [List.flatMap_cons, List.length_append, ih, List.length_cons, Writer.itemKinds]
    simp only [List.length_cons, List.length_nil]
    omega

theorem endsEntry_valueKinds (e : Writer.Entry) :
    ∃ k ks, Writer.valueKinds e = k :: ks ∧ endsEntry k = false := by
  unfold Writer.valueKinds
  split <;> exact ⟨_, _, rfl, rfl⟩

/-- What stands under a name. -/
theorem node_value {e : Writer.Entry} {ks : List Token.Kind} {n : Nat}
    (h : r.kinds = Writer.valueKinds e ++ ks) (hn : (Writer.valueKinds e).length < n) :
    ∃ v r', node true true n r = .ok (v, r') ∧ r'.kinds = ks ∧ v.Shows e := by
  cases e with
  | string s =>
    obtain ⟨m, rfl⟩ : ∃ m, n = m + 1 := ⟨n - 1, by omega⟩
    obtain ⟨⟨line, hnode⟩, hskip⟩ := node_scalar h true true m
    exact ⟨_, _, hnode, hskip, .string ⟨line, rfl⟩⟩
  | strings items =>
    cases items with
    | nil =>
      obtain ⟨m, rfl⟩ : ∃ m, n = m + 2 :=
        ⟨n - 2, by simp only [Writer.valueKinds, List.length_cons] at hn; omega⟩
      obtain ⟨⟨line, hnode⟩, hskip⟩ := node_brackets h true true m
      exact ⟨_, _, hnode, hskip, .strings line .nil⟩
    | cons s items =>
      obtain ⟨m, rfl⟩ : ∃ m, n = m + 1 := ⟨n - 1, by omega⟩
      rw [Writer.valueKinds, List.cons_append, List.append_assoc] at h
      have hlength : ((s :: items).map Utf8.decode).length < m := by
        rw [Writer.valueKinds, List.length_cons, List.length_append, length_items] at hn
        omega
      obtain ⟨_, _, hskip⟩ := peek_eq h
      obtain ⟨nodes, r', hread, hkinds, hshows⟩ := blockSequence_items [] hskip hlength
      obtain ⟨line, hnode⟩ := node_blockSequence h hread true
      exact ⟨_, _, hnode, hkinds, .strings line hshows⟩
  | flag on =>
    obtain ⟨m, rfl⟩ : ∃ m, n = m + 1 := ⟨n - 1, by omega⟩
    obtain ⟨⟨line, hnode⟩, hskip⟩ := node_scalar h true true m
    exact ⟨_, _, hnode, hskip, .flag line on⟩

theorem blockValue_entry {e : Writer.Entry} {ks : List Token.Kind} {n : Nat}
    (h : r.kinds = .value :: (Writer.valueKinds e ++ ks)) (hn : (Writer.valueKinds e).length + 1 < n) :
    ∃ v r', blockValue n r = .ok (v, r') ∧ r'.kinds = ks ∧ v.Shows e := by
  obtain ⟨m, rfl⟩ : ∃ m, n = m + 1 := ⟨n - 1, by omega⟩
  obtain ⟨start, hsign, hvalue⟩ := peek_eq h
  obtain ⟨v, r', hnode, hkinds, hshows⟩ := node_value (n := m) hvalue (by omega)
  obtain ⟨k, more, hk, hends⟩ := endsEntry_valueKinds e
  rw [hk] at hvalue
  obtain ⟨_, hpeek, _⟩ := peek_eq hvalue
  refine ⟨v, r', ?_, hkinds, hshows⟩
  rw [blockValue]
  simp only [hsign, hpeek, bind, Except.bind, hends, Bool.false_eq_true, if_false, hnode]

/-- The entries of a document, each name behind the sign of a key. -/
theorem blockMapping_entries {entries : List (String × Writer.Entry)} {ks : List Token.Kind} {n : Nat}
    (rev : List (Node × Node)) (h : r.kinds = Writer.kinds entries ++ .blockEnd :: ks)
    (hn : (Writer.kinds entries).length < n) :
    ∃ nodes r', (∀ began, blockMapping began n r rev = .ok (rev.reverse ++ nodes, r')) ∧ r'.kinds = ks ∧
      List.Forall₂ Node.ShowsEntry nodes entries := by
  induction entries generalizing r n rev with
  | nil =>
    obtain ⟨n, rfl⟩ := Nat.exists_eq_add_of_lt hn
    obtain ⟨start, hpeek, hskip⟩ := peek_eq h
    refine ⟨[], r.skip, ?_, hskip, .nil⟩
    intro began
    rw [blockMapping]
    simp only [hpeek, bind, Except.bind, List.append_nil]
  | cons e entries ih =>
    have hkinds : Writer.kinds (e :: entries)
        = .key :: .scalar e.1.toList .plain :: .value ::
          (Writer.valueKinds e.2 ++ Writer.kinds entries) := rfl
    simp only [hkinds, List.cons_append, List.append_assoc] at h
    simp only [hkinds, List.length_cons, List.length_append] at hn
    obtain ⟨m, rfl⟩ : ∃ m, n = m + 2 := ⟨n - 2, by omega⟩
    obtain ⟨start, hkey, hname⟩ := peek_eq h
    obtain ⟨_, hpeek, _⟩ := peek_eq hname
    obtain ⟨⟨line, hnode⟩, hvalue⟩ := node_scalar hname true true m
    generalize hshow : Node.scalar line (Node.scalarTag [] .plain e.1.toList) e.1.toList = k at hnode
    obtain ⟨v, r₁, hblock, hrest, hshows⟩ := blockValue_entry (n := m + 1) hvalue (by omega)
    obtain ⟨nodes, r', hread, hkinds, hmore⟩ := ih (n := m + 1) ((k, v) :: rev) hrest (by omega)
    refine ⟨(k, v) :: nodes, r', ?_, hkinds, .cons ⟨⟨line, hshow.symm⟩, hshows⟩ hmore⟩
    intro began
    rw [blockMapping]
    simp only [hkey, hpeek, bind, Except.bind, endsEntry, Bool.false_eq_true, if_false, hnode, hblock, hread,
      List.reverse_cons, List.append_assoc, List.singleton_append]

theorem document_entries {entries : List (String × Writer.Entry)} {fuel : Nat}
    (h : r.kinds = .streamStart :: .blockMapping :: (Writer.kinds entries ++ [.blockEnd, .streamEnd]))
    (hfuel : (Writer.kinds entries).length + 1 < fuel) :
    ∃ line nodes, document fuel r = .ok (some (.mapping line TagName.mapping nodes)) ∧
      List.Forall₂ Node.ShowsEntry nodes entries := by
  obtain ⟨m, rfl⟩ : ∃ m, fuel = m + 1 := ⟨fuel - 1, by omega⟩
  obtain ⟨_, hstart, hmapping⟩ := peek_eq h
  obtain ⟨_, hpeek, _⟩ := peek_eq hmapping
  have hstarted : Reader.kinds { r.skip with handles := defaultHandles }
      = .blockMapping :: (Writer.kinds entries ++ [.blockEnd, .streamEnd]) := hmapping
  obtain ⟨_, _, hentries⟩ := peek_eq hstarted
  obtain ⟨nodes, r', hread, hkinds, hshows⟩ := blockMapping_entries (n := m) [] hentries (by omega)
  obtain ⟨line, hnode⟩ := node_blockMapping hstarted hread false
  obtain ⟨_, hend, _⟩ := peek_eq hkinds
  refine ⟨line, nodes, ?_, hshows⟩
  simp only [document, hstart, hpeek, hnode, hend, bind, Except.bind]
  rfl

end Reader

theorem Node.ofBytes_document {entries : List (String × Writer.Entry)} (hne : entries ≠ [])
    (h : ∀ e ∈ entries, Writer.Clear e) :
    ∃ line nodes, Node.ofBytes (Writer.document entries) = .ok (some (.mapping line TagName.mapping nodes)) ∧
      List.Forall₂ ShowsEntry nodes entries := by
  obtain ⟨_, hkinds⟩ := Tokens.ofSource_lines hne fun e he => (h e he).legible
  rw [← Source.ofBytes_document hne h] at hkinds
  have hlength := congrArg List.length hkinds
  simp only [List.length_map, List.length_cons, List.length_append] at hlength
  unfold Node.ofBytes
  apply Reader.document_entries
  · exact hkinds
  · omega

/-! ### Values -/

/-- A tally of a document without aliases in which nothing is wrong. -/
structure Tally.Quiet (t : Tally) : Prop where
  aliased : t.aliased = 0
  depth : t.depth = 0
  wrong : t.wrong = []

theorem Tally.Quiet.count {t : Tally} (h : t.Quiet) : ∃ t', t.count = .ok t' ∧ t'.Quiet := by
  have hcount : t.count = .ok { t with decoded := t.decoded + 1 } := by
    simp [Tally.count, isExcessive, h.aliased, h.depth]
  exact ⟨_, hcount, h.aliased, h.depth, h.wrong⟩

theorem text_injective {a b : String} (h : text a = text b) : a = b := by
  have hdecode := congrArg Utf8.decode h
  rw [text, text, Utf8.decode_encode, Utf8.decode_encode] at hdecode
  exact String.toList_inj.mp hdecode

/-- What is read for what was written under a name. -/
def Writer.Entry.value : Writer.Entry → Value
  | .string s => .string s
  | .strings items => .list (items.map .string)
  | .flag on => .bool on

/-- What is read for a name and what was written under it. -/
def Writer.valueEntry (e : String × Writer.Entry) : Value × Value := (.string (text e.1), e.2.value)

namespace Node

/-- A text that was written plain reads as a string, and so does every other. -/
theorem scalarTag_styleOf (cs : List Char) :
    scalarTag [] (Writer.styleOf cs) cs = TagName.string ∨
      scalarTag [] (Writer.styleOf cs) cs = TagName.merge := by
  have hplain : Writer.styleOf cs = .plain → Plain.meaning true cs = .string := by
    intro hstyle
    unfold Writer.styleOf at hstyle
    split at hstyle
    · split at hstyle <;> simp at hstyle
    · split at hstyle
      · rename_i hstring
        simp only [Writer.readsAsString, Bool.and_eq_true, decide_eq_true_eq] at hstring
        exact hstring.1.1
      · simp at hstyle
  unfold scalarTag
  rw [if_neg (by simp)]
  split
  · rename_i hstyle
    split
    · exact Or.inr rfl
    · rw [hplain hstyle]
      exact Or.inl rfl
  · exact Or.inl rfl

theorem scalarValue_text {tag : TagName} (h : tag = TagName.string ∨ tag = TagName.merge) (cs : List Char) :
    scalarValue tag cs = .ok (.string (encode cs)) := by
  rcases h with rfl | rfl <;> rfl

variable {t : Tally}

theorem value_text {node : Node} {s : Bytes} (h : node.ShowsText (Utf8.decode s)) (hs : Printable s)
    (ht : t.Quiet) : ∃ t', value node t = .ok (some (.string s), t') ∧ t'.Quiet := by
  obtain ⟨line, rfl⟩ := h
  obtain ⟨t', hcount, hquiet⟩ := ht.count
  refine ⟨t', ?_, hquiet⟩
  rw [value]
  simp only [hcount, scalarValue_text (scalarTag_styleOf _), Utf8.encode_decode hs.valid, bind, Except.bind]

theorem values_texts {nodes : List Node} {items : List Bytes}
    (h : List.Forall₂ ShowsText nodes (items.map Utf8.decode)) (hitems : ∀ s ∈ items, Printable s)
    (ht : t.Quiet) :
    ∃ t', values nodes t = .ok (items.map .string, t') ∧ t'.Quiet := by
  induction items generalizing nodes t with
  | nil =>
    cases h
    exact ⟨t, by rw [values]; rfl, ht⟩
  | cons s items ih =>
    cases h with
    | cons hnode hnodes =>
      obtain ⟨t₁, hvalue, ht₁⟩ := value_text hnode (hitems s List.mem_cons_self) ht
      obtain ⟨t₂, hvalues, ht₂⟩ := ih hnodes (fun x hx => hitems x (List.mem_cons_of_mem _ hx)) ht₁
      refine ⟨t₂, ?_, ht₂⟩
      rw [values]
      simp only [hvalue, hvalues, bind, Except.bind]
      rfl

theorem value_shows {node : Node} {e : Writer.Entry} (h : node.Shows e) (he : Writer.PrintableEntry e)
    (ht : t.Quiet) : ∃ t', value node t = .ok (some e.value, t') ∧ t'.Quiet := by
  cases h with
  | string hnode => exact value_text hnode he ht
  | strings line hnodes =>
    obtain ⟨t₁, hcount, ht₁⟩ := ht.count
    obtain ⟨t₂, hvalues, ht₂⟩ := values_texts hnodes he ht₁
    refine ⟨t₂, ?_, ht₂⟩
    rw [value]
    simp only [hcount, hvalues, bind, Except.bind]
    rfl
  | flag line on =>
    obtain ⟨t', hcount, hquiet⟩ := ht.count
    have hflag : scalarValue (scalarTag [] .plain (Writer.flagWord on)) (Writer.flagWord on) =
        .ok (.bool on) := by
      cases on <;> rfl
    refine ⟨t', ?_, hquiet⟩
    rw [value]
    simp only [hcount, hflag, bind, Except.bind]
    rfl

/-! ### Names -/

theorem scalarTag_name {e : String × Writer.Entry} (h : Writer.Clear e) :
    scalarTag [] .plain e.1.toList = TagName.string := by
  have hmerge : e.1.toList ≠ ['<', '<'] := by
    intro heq
    have hletter := h.name.letters '<' (by simp [heq])
    exact hletter.ne_of (by decide) rfl
  simp only [scalarTag, ne_eq, not_true_eq_false, false_and, if_false, if_neg hmerge, h.isText]
  rfl

theorem stringValue_name {k : Node} {e : String × Writer.Entry} (h : Writer.Clear e)
    (hk : ∃ line, k = .scalar line (scalarTag [] .plain e.1.toList) e.1.toList) (ht : t.Quiet) :
    ∃ t', stringValue "string" k t = .ok (some (text e.1), t') ∧ t'.Quiet := by
  obtain ⟨line, rfl⟩ := hk
  obtain ⟨t', hcount, hquiet⟩ := ht.count
  refine ⟨t', ?_, hquiet⟩
  rw [stringValue, scalarTag_name h]
  simp only [hcount, bind, Except.bind]
  rfl

theorem isMerge_name {entry : Node × Node} {e : String × Writer.Entry} (h : Writer.Clear e)
    (hshows : ShowsEntry entry e) : entry.1.isMerge = false := by
  obtain ⟨line, hk⟩ := hshows.key
  have htag : TagName.string ≠ TagName.merge := by decide
  rw [hk, scalarTag_name h]
  simp [isMerge, htag]

theorem keyText_name {entry : Node × Node} {e : String × Writer.Entry} (hshows : ShowsEntry entry e) :
    entry.1.keyText = (0, e.1.toList) := by
  obtain ⟨line, hk⟩ := hshows.key
  rw [hk, keyText]

variable {nodes : List (Node × Node)} {entries : List (String × Writer.Entry)}

theorem hasMerge_eq (h : List.Forall₂ ShowsEntry nodes entries) (hclear : ∀ e ∈ entries, Writer.Clear e) :
    hasMerge nodes = false := by
  induction h with
  | nil => rfl
  | cons hshows _ ih =>
    rw [hasMerge, List.any_cons, isMerge_name (hclear _ List.mem_cons_self) hshows, Bool.false_or]
    exact ih fun e he => hclear e (List.mem_cons_of_mem _ he)

theorem repeats_eq (h : List.Forall₂ ShowsEntry nodes entries) {k : Node} {name : String}
    (hk : k.keyText = (0, name.toList)) (hname : name ∉ entries.map Prod.fst) : repeats k nodes = [] := by
  rw [repeats, List.map_eq_nil_iff, List.filter_eq_nil_iff]
  induction h with
  | nil => simp
  | cons hshows _ ih =>
    simp only [List.map_cons, List.mem_cons, not_or] at hname
    intro entry hentry
    rcases List.mem_cons.mp hentry with rfl | hentry
    · rw [keyText_name hshows, hk]
      simp [String.toList_inj, Ne.symm hname.1]
    · exact ih hname.2 entry hentry

theorem allRepeats_eq (h : List.Forall₂ ShowsEntry nodes entries) (hnames : (entries.map Prod.fst).Nodup) :
    allRepeats nodes = [] := by
  induction h with
  | nil => rfl
  | cons hshows hrest ih =>
    rw [List.map_cons, List.nodup_cons] at hnames
    rw [allRepeats, repeats_eq hrest (keyText_name hshows) hnames.1, ih hnames.2]
    rfl

/-! ### Mappings -/

/-- A new name goes behind the others. -/
theorem put_name {seen : List (String × Writer.Entry)} {name : String} (h : name ∉ seen.map Prod.fst)
    (v : Value) :
    Value.put (.string (text name)) v (seen.map Writer.valueEntry)
      = seen.map Writer.valueEntry ++ [(.string (text name), v)] := by
  induction seen with
  | nil => rfl
  | cons e seen ih =>
    simp only [List.map_cons, List.mem_cons, not_or] at h
    have hother : Value.sameKey (.string (text e.1)) (.string (text name)) = false := by
      simp only [Value.sameKey, decide_eq_false_iff_not]
      exact fun heq => h.1 (text_injective heq).symm
    rw [List.map_cons, Writer.valueEntry, Value.put, if_neg (by simp [hother]), ih h.2]
    rfl

theorem fill_entries (h : List.Forall₂ ShowsEntry nodes entries) (hclear : ∀ e ∈ entries, Writer.Clear e)
    (seen : List (String × Writer.Entry)) (hnames : ((seen ++ entries).map Prod.fst).Nodup) (ht : t.Quiet) :
    ∃ t', fill true nodes ⟨seen.map Writer.valueEntry, none, t⟩
      = .ok ⟨(seen ++ entries).map Writer.valueEntry, none, t'⟩ ∧ t'.Quiet := by
  induction h generalizing seen t with
  | nil => exact ⟨t, by rw [fill, List.append_nil], ht⟩
  | @cons entry e nodes entries hshows hrest ih =>
    have he := hclear e List.mem_cons_self
    have hnew : e.1 ∉ seen.map Prod.fst := by
      rw [List.map_append, List.map_cons, List.nodup_append] at hnames
      exact fun hmem => hnames.2.2 e.1 hmem e.1 List.mem_cons_self rfl
    obtain ⟨k, v⟩ := entry
    obtain ⟨t₁, hkey, ht₁⟩ := stringValue_name he hshows.key ht
    obtain ⟨t₂, hvalue, ht₂⟩ := value_shows hshows.value he.printable ht₁
    obtain ⟨t₃, hfill, ht₃⟩ := ih (fun x hx => hclear x (List.mem_cons_of_mem _ hx)) (seen ++ [e])
      (by simpa using hnames) ht₂
    rw [List.append_assoc, List.singleton_append] at hfill
    refine ⟨t₃, ?_, ht₃⟩
    rw [← hfill, fill]
    simp only [isMerge_name he hshows, Bool.false_eq_true, if_false, if_true, hkey, bind, Except.bind,
      Option.map_some,
      Filling.settle, checkKey, hvalue, put_name hnew, List.map_append, List.map_cons, List.map_nil]
    rfl

theorem settleAll_eq (h : hasMerge nodes = false) (f : Filling) : settleAll nodes f = .ok f := by
  cases nodes with
  | nil => rw [settleAll]
  | cons entry nodes =>
    obtain ⟨k, v⟩ := entry
    rw [settleAll, h]
    simp

theorem mergeIn_eq (h : hasMerge nodes = false) (f : Filling) : mergeIn true nodes f = .ok f := by
  induction nodes with
  | nil => rw [mergeIn]
  | cons entry nodes ih =>
    obtain ⟨k, v⟩ := entry
    rw [hasMerge, List.any_cons, Bool.or_eq_false_iff] at h
    rw [mergeIn, if_neg (by simp [h.1])]
    exact ih h.2

theorem entriesOf_mapping (h : List.Forall₂ ShowsEntry nodes entries) (hclear : ∀ e ∈ entries, Writer.Clear e)
    (hnames : (entries.map Prod.fst).Nodup) (line : Nat) :
    entriesOf (.mapping line TagName.mapping nodes) = .ok (entries.map Writer.valueEntry) := by
  obtain ⟨t₁, hcount₁, ht₁⟩ := Tally.Quiet.count (t := Tally.start) ⟨rfl, rfl, rfl⟩
  obtain ⟨t₂, hcount₂, ht₂⟩ := ht₁.count
  obtain ⟨t₃, hfill, ht₃⟩ := fill_entries h hclear [] hnames ht₂
  have hmerge := hasMerge_eq h hclear
  have hkeys : checkKeys t₂ nodes = (true, t₂) := by
    rw [checkKeys, allRepeats_eq h hnames]
    rfl
  rw [List.nil_append, List.map_nil] at hfill
  rw [entriesOf]
  simp only [hcount₁, bind, Except.bind]
  rw [mergeFrom]
  simp only [hcount₂, hkeys, hfill, settleAll_eq hmerge, mergeIn_eq hmerge, bind, Except.bind, if_true]
  simp [finish, ht₃.wrong]

end Node

/-- What was written under distinct names is what is read under them, in the same order. -/
theorem readEntries_document {entries : List (String × Writer.Entry)} (hne : entries ≠ [])
    (hclear : ∀ e ∈ entries, Writer.Clear e) (hnames : (entries.map Prod.fst).Nodup) :
    readEntries (Writer.document entries) = .ok (entries.map Writer.valueEntry) := by
  obtain ⟨line, nodes, hroot, hshows⟩ := Node.ofBytes_document hne hclear
  rw [readEntries, hroot]
  exact Node.entriesOf_mapping hshows hclear hnames line

end DartReach.Yaml
