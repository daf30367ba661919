import DiagramEditor.Flowchart.Reference
import DiagramEditor.Proofs.Flowchart.View
import DiagramEditor.Proofs.Source.Reload

/-!
# Flowcharts without line breaks

What is read from a flat line is flat (`Statement.isFlat_ofLine`), and so is everything that the view
of a flat source holds (`View.isFlat_ofSource`). The written forms of flat parts are flat as well.
-/

namespace DiagramEditor.Flowchart

open Text

variable {s line rest indent id label : Text} {properties : Properties}

/-! ## Properties -/

namespace Properties

/-- No key and no value has a line break. -/
def IsFlat (properties : Properties) : Prop :=
  ∀ p ∈ properties, Text.IsFlat p.1 ∧ Text.IsFlat p.2

theorem IsFlat.append {more : Properties} (h : IsFlat properties) (hmore : IsFlat more) :
    IsFlat (properties ++ more) :=
  List.forall_mem_append.2 ⟨h, hmore⟩

theorem subset_of_mem_splitCommas {depth : Nat} {field : Text} (h : field ∈ splitCommas depth s) :
    field ⊆ s := by
  induction s generalizing field depth with
  | nil =>
    rw [splitCommas, List.mem_singleton] at h
    rw [h]
    exact List.nil_subset []
  | cons c s ih =>
    rw [splitCommas] at h
    split at h
    · exact subset_of_mem_consFirst (fun f hf => ih hf) h
    · split at h
      · exact subset_of_mem_consFirst (fun f hf => ih hf) h
      · split at h
        · rcases List.mem_cons.1 h with rfl | h
          exacts [List.nil_subset _, List.subset_cons_of_subset c (ih h)]
        · exact subset_of_mem_consFirst (fun f hf => ih hf) h

theorem IsFlat.extendLast {more : Text} (hmore : Text.IsFlat more) (h : IsFlat properties) :
    IsFlat (extendLast more properties) := by
  induction properties using extendLast.induct with
  | case1 => exact h
  | case2 key value =>
    obtain ⟨hkey, hvalue⟩ := h _ List.mem_cons_self
    refine List.forall_mem_singleton.2 ⟨hkey, ?_⟩
    exact isFlat_append.2 ⟨hvalue, isFlat_cons.2 ⟨by decide, hmore⟩⟩
  | case3 p rest hne ih =>
    rw [Properties.extendLast]
    · exact List.forall_mem_cons.2 ⟨h p List.mem_cons_self, ih fun q hq => h q (.tail p hq)⟩
    · exact hne

theorem IsFlat.addStretch {stretch : Text} (h : IsFlat properties) (hs : Text.IsFlat stretch) :
    IsFlat (addStretch properties stretch) := by
  rw [Properties.addStretch]
  split
  · next key value hcut =>
    split
    · exact h
    · have := hs.cutChar? hcut
      exact h.append (List.forall_mem_singleton.2 ⟨this.1.trim, this.2.trim⟩)
  · exact h.extendLast hs.trim

theorem isFlat_ofText {raw : Text} (h : Text.IsFlat raw) : IsFlat (ofText raw) := by
  rw [ofText]
  have hstretch : ∀ stretch ∈ splitCommas 0 (dropEndWhile (· == ';') (trim raw)),
      Text.IsFlat stretch :=
    fun stretch hmem => (h.trim.dropEndWhile _).subset (subset_of_mem_splitCommas hmem)
  exact List.foldlRecOn _ _ (nofun : IsFlat []) fun b hb stretch hmem =>
    hb.addStretch (hstretch stretch hmem)

theorem IsFlat.toText (h : IsFlat properties) : Text.IsFlat (toText properties) := by
  refine AllFlat.join ?_ (by decide)
  intro text htext
  obtain ⟨p, hp, rfl⟩ := List.mem_map.1 htext
  exact isFlat_append.2 ⟨(h p hp).1, isFlat_cons.2 ⟨by decide, (h p hp).2⟩⟩

theorem IsFlat.alterFirst {key : Text} {f : Text → Option Text} (h : IsFlat properties)
    (hf : ∀ v, ∀ v' ∈ f v, Text.IsFlat v') : IsFlat (alterFirst key f properties) := by
  induction properties with
  | nil => exact h
  | cons p rest ih =>
    obtain ⟨hp, hrest⟩ := List.forall_mem_cons.1 h
    rw [Properties.alterFirst]
    split
    · split
      · next v' hv' => exact List.forall_mem_cons.2 ⟨⟨hp.1, hf _ v' hv'⟩, hrest⟩
      · exact hrest
    · exact List.forall_mem_cons.2 ⟨hp, ih hrest⟩

theorem IsFlat.set {key : Text} {value : Option Text} (h : IsFlat properties)
    (hkey : Text.IsFlat key) (hvalue : ∀ v ∈ value, Text.IsFlat v) :
    IsFlat (set key value properties) := by
  have htrimmed : ∀ v ∈ (value.map trim).filter fun v => !v.isEmpty, Text.IsFlat v := by
    intro v hv
    obtain ⟨w, hw, rfl⟩ := Option.map_eq_some_iff.1 (Option.filter_eq_some_iff.1 hv).1
    exact (hvalue w hw).trim
  rw [Properties.set]
  split
  · exact h.alterFirst fun _ => htrimmed
  · split
    · next v hv => exact h.append (List.forall_mem_singleton.2 ⟨hkey, htrimmed v hv⟩)
    · exact h

end Properties

/-! ## Definitions -/

/-- No text of the definition has a line break. -/
structure NodeDefinition.IsFlat (d : NodeDefinition) : Prop where
  entries : ∀ entries, d.form = .advanced entries → Properties.IsFlat entries
  rawLabel : ∀ raw ∈ d.rawLabel, Text.IsFlat raw
  label : ∀ label ∈ d.label, Text.IsFlat label

namespace NodeDefinition

theorem isFlat_opening (shape : NodeShape) : Text.IsFlat shape.opening := by
  cases shape <;> decide

theorem isFlat_closing (shape : NodeShape) : Text.IsFlat shape.closing := by
  cases shape <;> decide

theorem isFlat_classic (shape : NodeShape) (h : Text.IsFlat label) : (classic shape label).IsFlat where
  entries := nofun
  rawLabel := by
    rintro _ ⟨⟩
    exact h.quote
  label := by
    rintro _ ⟨⟩
    exact h

theorem isFlat_setEntry {key value : Text} {entries : List (Text × Text)} (hkey : Text.IsFlat key)
    (hvalue : Text.IsFlat value) (h : Properties.IsFlat entries) :
    Properties.IsFlat (setEntry key value entries) := by
  induction entries with
  | nil => exact List.forall_mem_singleton.2 ⟨hkey, hvalue⟩
  | cons entry entries ih =>
    obtain ⟨hentry, hentries⟩ := List.forall_mem_cons.1 h
    rw [setEntry]
    split
    · exact List.forall_mem_cons.2 ⟨⟨hentry.1, hvalue⟩, hentries⟩
    · exact List.forall_mem_cons.2 ⟨hentry, ih hentries⟩

theorem IsFlat.withLabel {d : NodeDefinition} (h : d.IsFlat) (hlabel : Text.IsFlat label) :
    (d.withLabel label).IsFlat := by
  rw [NodeDefinition.withLabel]
  split
  · exact isFlat_classic _ hlabel
  · next entries hform =>
    refine ⟨?_, ?_, ?_⟩
    · rintro _ ⟨⟩
      exact isFlat_setEntry (by decide) hlabel.quote (h.entries entries hform)
    · rintro _ ⟨⟩
      exact hlabel.quote
    · rintro _ ⟨⟩
      exact hlabel

theorem isFlat_ofEntries {body : Text} (h : Text.IsFlat body) : (ofEntries body).IsFlat := by
  have hentries : Properties.IsFlat ((splitOutside ',' body).filterMap entryOf?) := by
    rintro ⟨key, value⟩ hentry
    obtain ⟨part, hpart, hread⟩ := List.mem_filterMap.1 hentry
    obtain ⟨k, v, rfl, -, rfl, rfl, -⟩ := entryOf?_eq_some hread
    obtain ⟨hk, hv⟩ := isFlat_append.1 (allFlat_splitOutside h ',' _ hpart)
    exact ⟨hk.trim, (isFlat_cons.1 hv).2.trim⟩
  have hraw : ∀ raw ∈ ((splitOutside ',' body).filterMap entryOf?).lookup labelKey,
      Text.IsFlat raw := by
    intro raw hraw
    obtain ⟨_, _, heq, -⟩ := List.lookup_eq_some_iff.1 hraw
    exact (hentries (labelKey, raw) (heq ▸ List.mem_append_right _ List.mem_cons_self)).2
  rw [ofEntries_eq]
  refine ⟨?_, hraw, ?_⟩
  · rintro _ ⟨⟩
    exact hentries
  · intro label hlabel
    obtain ⟨raw, hmem, rfl⟩ := Option.map_eq_some_iff.1 hlabel
    exact (hraw raw hmem).unquote

theorem IsFlat.render {d : NodeDefinition} (h : d.IsFlat) (hid : Text.IsFlat id) :
    Text.IsFlat (d.render id) := by
  rw [NodeDefinition.render]
  split
  · next shape _ =>
    refine isFlat_append.2 ⟨isFlat_append.2 ⟨isFlat_append.2 ⟨hid, isFlat_opening shape⟩, ?_⟩,
      isFlat_closing shape⟩
    cases hraw : d.rawLabel with
    | none => exact hid.quote
    | some raw => exact h.rawLabel raw hraw
  · next entries hform =>
    refine isFlat_append.2 ⟨isFlat_append.2 ⟨isFlat_append.2 ⟨hid, by decide⟩, ?_⟩, by decide⟩
    refine AllFlat.join ?_ (by decide)
    intro text htext
    obtain ⟨entry, hentry, rfl⟩ := List.mem_map.1 htext
    have := h.entries entries hform entry hentry
    simpa using this

end NodeDefinition

/-! ## Tokens -/

/-- No text of the token has a line break. -/
structure NodeToken.IsFlat (t : NodeToken) : Prop where
  id : Text.IsFlat t.id
  definition : ∀ d ∈ t.definition, d.IsFlat
  classSuffix : ∀ name ∈ t.classSuffix, Text.IsFlat name
  text : Text.IsFlat t.text

namespace NodeToken

theorem IsIdent.isFlat (h : IsIdent id) : Text.IsFlat id :=
  isFlat_of_all (List.all_eq_true.2 h.2) (by decide) (by decide)

theorem isFlat_scanDefinition? {definition : Option NodeDefinition} (h : Text.IsFlat s)
    (hs : scanDefinition? s = some (definition, rest)) :
    (∀ d ∈ definition, d.IsFlat) ∧ Text.IsFlat rest := by
  cases definition with
  | none =>
    rw [scanDefinition?] at hs
    split at hs
    · obtain ⟨_, -, heq⟩ := Option.map_eq_some_iff.1 hs
      cases heq
    · split at hs
      · cases hs
      · cases hs
        exact ⟨fun d hd => absurd hd (Option.not_mem_none d), h⟩
  | some d =>
    obtain ⟨body, rfl, -, rfl⟩ | ⟨shape, raw, -, hshape, rfl⟩ := scanDefinition?_eq_some hs
    · obtain ⟨hbody, hrest⟩ := isFlat_append.1 (isFlat_cons.1 (isFlat_cons.1 h).2).2
      refine ⟨?_, (isFlat_cons.1 hrest).2⟩
      rintro _ ⟨⟩
      exact NodeDefinition.isFlat_ofEntries hbody
    · obtain ⟨rfl, -⟩ := scanShape?_eq_some hshape
      obtain ⟨hshaped, hrest⟩ := isFlat_append.1 h
      have hraw := (isFlat_append.1 (isFlat_append.1 hshaped).2).1
      refine ⟨?_, hrest⟩
      rintro _ ⟨⟩
      refine ⟨?_, ?_, ?_⟩
      · rintro _ ⟨⟩
      · rintro _ ⟨⟩
        exact hraw
      · rintro _ ⟨⟩
        exact hraw.unquote

theorem isFlat_scanClass {name : Option Text} (h : Text.IsFlat s) (hs : scanClass s = (name, rest)) :
    (∀ text ∈ name, Text.IsFlat text) ∧ Text.IsFlat rest := by
  rw [scanClass] at hs
  split at hs
  · next after hstrip =>
    have hafter := h.stripFront? hstrip
    dsimp only at hs
    split at hs
    · cases hs
      exact ⟨nofun, h⟩
    · cases hs
      refine ⟨?_, hafter.dropWhile _⟩
      rintro _ ⟨⟩
      exact hafter.takeWhile _
  · cases hs
    exact ⟨nofun, h⟩

theorem isFlat_scan? {token : NodeToken} (h : Text.IsFlat s) (hs : scan? s = some (token, rest)) :
    token.IsFlat ∧ Text.IsFlat rest := by
  obtain ⟨after, -, hdef, hclass, hid, htext⟩ := scan?_eq_some_iff.1 hs
  obtain ⟨hdefinition, hafter⟩ := isFlat_scanDefinition? (h.dropWhile _) hdef
  obtain ⟨hsuffix, hrest⟩ := isFlat_scanClass hafter hclass
  refine ⟨⟨?_, hdefinition, hsuffix, ?_⟩, hrest⟩
  · rw [hid]
    exact h.takeWhile _
  · rw [htext]
    exact h.before rest

end NodeToken

/-! ## Links -/

/-- The text of the connector, if it has one, has no line break. -/
def Connector.IsFlat (c : Connector) : Prop :=
  ∀ text ∈ c.text, Text.IsFlat text

namespace Connector

theorem isFlat_scan? {c : Connector} (h : Text.IsFlat s) (hs : scan? s = some (c, rest)) :
    c.IsFlat ∧ Text.IsFlat rest := by
  rcases Option.or_eq_some_iff.1 hs with hs | ⟨-, hs⟩
  · obtain ⟨after, hafter, hs⟩ := Option.bind_eq_some_iff.1 hs
    obtain ⟨-, -, hs⟩ := Option.bind_eq_some_iff.1 hs
    obtain ⟨⟨raw, rest'⟩, hcut, hs⟩ := Option.bind_eq_some_iff.1 hs
    obtain ⟨-, -, hs⟩ := Option.bind_eq_some_iff.1 hs
    cases hs
    obtain ⟨hraw, hrest⟩ := (h.stripFront? hafter).cutOutside? hcut
    refine ⟨?_, hrest⟩
    rintro _ ⟨⟩
    exact hraw.unquote
  · obtain ⟨⟨kind, after⟩, harrow, hs⟩ := Option.bind_eq_some_iff.1 hs
    obtain ⟨arrow, -, harrow⟩ := List.exists_of_findSome?_eq_some harrow
    obtain ⟨after', hstrip, heq⟩ := Option.map_eq_some_iff.1 harrow
    cases heq
    have hafter := h.stripFront? hstrip
    dsimp only at hs
    split at hs
    · next piped hpiped =>
      have htrim := hafter.trimStart
      rw [hpiped] at htrim
      obtain ⟨⟨raw, rest'⟩, hcut, hs⟩ := Option.bind_eq_some_iff.1 hs
      cases hs
      obtain ⟨hraw, hrest⟩ := (isFlat_cons.1 htrim).2.cutChar? hcut
      refine ⟨?_, hrest⟩
      rintro _ ⟨⟩
      exact hraw.unquote
    · cases hs
      exact ⟨nofun, hafter⟩

theorem isFlat_token (arrow : Arrow) : Text.IsFlat arrow.token := by
  cases arrow <;> decide

theorem IsFlat.render {c : Connector} (h : c.IsFlat) : Text.IsFlat c.render := by
  rw [Connector.render]
  split
  · exact isFlat_token c.arrow
  · next text htext =>
    have hflat := h text htext
    have hwritten : Text.IsFlat
        (if text.contains '|' || text.contains '"' then Text.quote text else text) := by
      split
      exacts [hflat.quote, hflat]
    refine isFlat_append.2 ⟨isFlat_append.2 ⟨isFlat_token .normal, ?_⟩, by decide⟩
    exact isFlat_cons.2 ⟨by decide, hwritten⟩

end Connector

/-- No piece of the link line has a line break. -/
structure LinkLine.IsFlat (l : LinkLine) : Prop where
  lead : Text.IsFlat l.lead
  source : l.source.IsFlat
  between : Text.IsFlat l.between
  connector : l.connector.IsFlat
  target : l.target.IsFlat
  tail : Text.IsFlat l.tail

theorem LinkLine.isFlat_ofLine? {l : LinkLine} (h : Text.IsFlat line)
    (hread : LinkLine.ofLine? line = some l) : l.IsFlat := by
  obtain ⟨⟨source, afterSource⟩, hsource, hread⟩ := Option.bind_eq_some_iff.1 hread
  obtain ⟨-, -, hread⟩ := Option.bind_eq_some_iff.1 hread
  obtain ⟨⟨connector, afterConnector⟩, hconnector, hread⟩ := Option.bind_eq_some_iff.1 hread
  obtain ⟨⟨target, tail⟩, htarget, hread⟩ := Option.bind_eq_some_iff.1 hread
  obtain ⟨-, -, hread⟩ := Option.bind_eq_some_iff.1 hread
  cases hread
  obtain ⟨hsource, hafterSource⟩ := NodeToken.isFlat_scan? h.trimStart hsource
  obtain ⟨hconnector, hafterConnector⟩ := Connector.isFlat_scan? hafterSource.trimStart hconnector
  obtain ⟨htarget, htail⟩ := NodeToken.isFlat_scan? hafterConnector.trimStart htarget
  exact {
    lead := h.indent
    source := hsource
    between := hafterSource.before _
    connector := hconnector
    target := htarget
    tail := htail }

theorem NodeLine.isFlat_ofLine? {n : NodeLine} (h : Text.IsFlat line)
    (hread : NodeLine.ofLine? line = some n) : n.token.IsFlat := by
  obtain ⟨⟨token, tail⟩, htoken, hread⟩ := Option.bind_eq_some_iff.1 hread
  obtain ⟨-, -, hread⟩ := Option.bind_eq_some_iff.1 hread
  obtain ⟨-, -, hread⟩ := Option.bind_eq_some_iff.1 hread
  cases hread
  exact (NodeToken.isFlat_scan? h.trimStart htoken).1

/-! ## Headers and directives -/

theorem SubgraphHeader.isFlat_labelOf (h : Text.IsFlat s) : ∀ label ∈ labelOf s, Text.IsFlat label := by
  intro label hlabel
  rw [labelOf] at hlabel
  split at hlabel
  · next inner hinner =>
    obtain ⟨front, hfront, hinner⟩ := Option.bind_eq_some_iff.1 hinner
    cases hlabel
    exact ((h.trim.stripFront? hfront).stripEnd? hinner).unquote
  · split at hlabel
    · cases hlabel
    · cases hlabel
      exact h.trim.unquote

theorem SubgraphHeader.isFlat_ofLine? {header : SubgraphHeader} (h : Text.IsFlat line)
    (hread : SubgraphHeader.ofLine? line = some header) :
    Text.IsFlat header.id ∧ ∀ label ∈ header.label, Text.IsFlat label := by
  obtain ⟨rest, hrest, hread⟩ := Option.bind_eq_some_iff.1 hread
  obtain ⟨-, -, hread⟩ := Option.bind_eq_some_iff.1 hread
  have hbody := (h.trimStart.stripFront? hrest).trimStart.trimEnd
  dsimp only at hread
  split at hread
  · cases hread
    refine ⟨hbody.unquote, ?_⟩
    rintro _ ⟨⟩
    exact hbody.unquote
  · obtain ⟨-, -, hread⟩ := Option.bind_eq_some_iff.1 hread
    cases hread
    exact ⟨hbody.takeWhile _, isFlat_labelOf (hbody.dropWhile _)⟩

theorem SubgraphHeader.isFlat_render (hindent : Text.IsFlat indent) (hid : Text.IsFlat id)
    {label : Option Text} (hlabel : ∀ text ∈ label, Text.IsFlat text) :
    Text.IsFlat (render indent id label) := by
  refine isFlat_append.2 ⟨isFlat_append.2 ⟨isFlat_append.2 ⟨hindent, by decide⟩,
    isFlat_cons.2 ⟨by decide, hid⟩⟩, ?_⟩
  cases label with
  | none => exact isFlat_nil
  | some text =>
    refine isFlat_cons.2 ⟨by decide, isFlat_cons.2 ⟨by decide, ?_⟩⟩
    exact isFlat_append.2 ⟨(hlabel text rfl).quote, by decide⟩

theorem NodeStyle.isFlat_ofLine? {d : NodeStyle} (h : Text.IsFlat line)
    (hread : NodeStyle.ofLine? line = some d) :
    Text.IsFlat d.target ∧ d.properties.IsFlat := by
  obtain ⟨rest, hrest, hread⟩ := Option.bind_eq_some_iff.1 hread
  obtain ⟨-, -, hread⟩ := Option.bind_eq_some_iff.1 hread
  cases hread
  obtain ⟨htarget, hproperties⟩ := (h.stripKeyword? hrest).headAndRest
  exact ⟨htarget, Properties.isFlat_ofText hproperties⟩

theorem LinkStyle.isFlat_ofLine? {d : LinkStyle} (h : Text.IsFlat line)
    (hread : LinkStyle.ofLine? line = some d) : d.properties.IsFlat := by
  obtain ⟨rest, hrest, hread⟩ := Option.bind_eq_some_iff.1 hread
  obtain ⟨target, -, hread⟩ := Option.bind_eq_some_iff.1 hread
  cases hread
  exact Properties.isFlat_ofText (h.stripKeyword? hrest).headAndRest.2

theorem ClassUse.isFlat_ofLine? {d : ClassUse} (h : Text.IsFlat line)
    (hread : ClassUse.ofLine? line = some d) : AllFlat d.ids ∧ Text.IsFlat d.className := by
  obtain ⟨rest, hrest, hread⟩ := Option.bind_eq_some_iff.1 hread
  obtain ⟨-, -, hread⟩ := Option.bind_eq_some_iff.1 hread
  obtain ⟨-, -, hread⟩ := Option.bind_eq_some_iff.1 hread
  cases hread
  obtain ⟨hids, hname⟩ := (h.stripKeyword? hrest).headAndRest
  exact ⟨(allFlat_splitOn hids ',').map fun _ => Text.IsFlat.trim, hname⟩

theorem ClassDef.isFlat_ofLine? {d : ClassDef} (h : Text.IsFlat line)
    (hread : ClassDef.ofLine? line = some d) : d.properties.IsFlat := by
  obtain ⟨rest, hrest, hread⟩ := Option.bind_eq_some_iff.1 hread
  obtain ⟨-, -, hread⟩ := Option.bind_eq_some_iff.1 hread
  cases hread
  exact Properties.isFlat_ofText (h.stripKeyword? hrest).headAndRest.2

/-- A keyword between an indent and two flat texts. -/
theorem isFlat_directive {keyword text rest : Text} (hkeyword : Text.IsFlat keyword)
    (hindent : Text.IsFlat indent) (htext : Text.IsFlat text) (hrest : Text.IsFlat rest) :
    Text.IsFlat (indent ++ keyword ++ ' ' :: text ++ ' ' :: rest) :=
  isFlat_append.2 ⟨isFlat_append.2 ⟨isFlat_append.2 ⟨hindent, hkeyword⟩,
    isFlat_cons.2 ⟨by decide, htext⟩⟩, isFlat_cons.2 ⟨by decide, hrest⟩⟩

theorem NodeStyle.isFlat_render {target : Text} (hindent : Text.IsFlat indent)
    (htarget : Text.IsFlat target) (h : properties.IsFlat) :
    Text.IsFlat (render indent ⟨target, properties⟩) :=
  isFlat_directive (by decide) hindent htarget h.toText

theorem LinkStyle.isFlat_render (hindent : Text.IsFlat indent) (positions : List Nat)
    (h : properties.IsFlat) : Text.IsFlat (render indent positions properties) := by
  refine isFlat_directive (by decide) hindent (AllFlat.join ?_ (by decide)) h.toText
  intro text htext
  obtain ⟨n, -, rfl⟩ := List.mem_map.1 htext
  exact isFlat_ofNat n

theorem ClassUse.isFlat_render {ids : List Text} {name : Text} (hindent : Text.IsFlat indent)
    (hids : AllFlat ids) (hname : Text.IsFlat name) : Text.IsFlat (render indent ⟨ids, name⟩) :=
  isFlat_directive (by decide) hindent (hids.join (by decide)) hname

theorem ClassDef.isFlat_render {name : Text} (hindent : Text.IsFlat indent)
    (hname : Text.IsFlat name) (h : properties.IsFlat) :
    Text.IsFlat (render indent name properties) :=
  isFlat_directive (by decide) hindent hname h.toText

/-! ## Statements -/

/-- No text that the statement holds has a line break. -/
def Statement.IsFlat : Statement → Prop
  | subgraphOpen header => Text.IsFlat header.id
  | nodeStyle d => Text.IsFlat d.target ∧ d.properties.IsFlat
  | linkStyle d => d.properties.IsFlat
  | classUse d => AllFlat d.ids ∧ Text.IsFlat d.className
  | classDef d => d.properties.IsFlat
  | link l => l.IsFlat
  | node n => n.token.IsFlat
  | _ => True

theorem Statement.isFlat_ofLine (h : Text.IsFlat line) : (ofLine line).IsFlat := by
  have hread := readsFrom_ofLine line
  cases hst : ofLine line <;> rw [hst] at hread
  case subgraphOpen header => exact (SubgraphHeader.isFlat_ofLine? h hread).1
  case nodeStyle d => exact NodeStyle.isFlat_ofLine? h hread
  case linkStyle d => exact LinkStyle.isFlat_ofLine? h hread
  case classUse d => exact ClassUse.isFlat_ofLine? h hread
  case classDef d => exact ClassDef.isFlat_ofLine? h hread
  case link l => exact LinkLine.isFlat_ofLine? h hread
  case node n => exact NodeLine.isFlat_ofLine? h hread
  all_goals trivial

theorem Statement.IsFlat.token {st : Statement} (h : st.IsFlat) {t : NodeToken} (ht : t ∈ st.tokens) :
    t.IsFlat := by
  cases st with
  | link l =>
    rcases List.mem_pair.1 ht with rfl | rfl
    exacts [h.source, h.target]
  | node n => exact List.mem_singleton.1 ht ▸ h
  | _ => cases ht

theorem isFlat_of_mem_statements {source : Source} (h : source.IsFlat) {i : Nat} {st : Statement}
    (hst : (i, st) ∈ statements source) : st.IsFlat := by
  obtain ⟨text, htext, rfl⟩ := exists_line_of_mem_statements hst
  exact Statement.isFlat_ofLine (h text (List.mem_of_getElem? htext))

/-! ## Views -/

/-- No text of the view that an edit may write has a line break. -/
structure View.IsFlat (v : View) : Prop where
  nodes : ∀ n ∈ v.nodes, Text.IsFlat n.id ∧ ∀ d ∈ n.definition, d.IsFlat
  links : ∀ r ∈ v.links, r.link.IsFlat
  subgraphs : ∀ g ∈ v.subgraphs, Text.IsFlat g.id
  styles : ∀ p ∈ v.styles, p.2.properties.IsFlat
  linkStyles : ∀ p ∈ v.linkStyles, p.2.properties.IsFlat
  classes : ∀ p ∈ v.classes, AllFlat p.2.ids ∧ Text.IsFlat p.2.className
  classDefs : ∀ p ∈ v.classDefs, p.2.properties.IsFlat

namespace View

theorem isFlat_of_mem_found {source : Source} (h : source.IsFlat) {α : Type}
    {get : Statement → Option α} {i : Nat} {a : α} (ha : (i, a) ∈ found get (statements source)) :
    ∃ st : Statement, st.IsFlat ∧ get st = some a := by
  obtain ⟨st, hst, hget⟩ := mem_found.1 ha
  exact ⟨st, isFlat_of_mem_statements h hst, hget⟩

theorem isFlat_of_mem_mentions {source : Source} (h : source.IsFlat) {p : Mention × NodeToken}
    (hp : p ∈ mentions (statements source)) : p.2.IsFlat := by
  have htoken := List.mem_map_of_mem (f := Prod.snd) hp
  rw [map_snd_mentions] at htoken
  obtain ⟨st, hst, ht⟩ := List.mem_flatMap.1 htoken
  obtain ⟨⟨i, _⟩, hmem, rfl⟩ := List.mem_map.1 hst
  exact (isFlat_of_mem_statements h hmem).token ht

theorem isFlat_nodes {source : Source} (h : source.IsFlat) :
    ∀ n ∈ (View.ofSource source).nodes, Text.IsFlat n.id ∧ ∀ d ∈ n.definition, d.IsFlat := by
  intro n hn
  constructor
  · obtain ⟨p, hp⟩ := List.exists_mem_of_ne_nil _ (mentionsOf_ne_nil hn)
    obtain ⟨hp, hid⟩ := List.mem_filter.1 hp
    rw [← of_decide_eq_true hid]
    exact (isFlat_of_mem_mentions h hp).id
  · intro d hd
    rw [definition_eq hn] at hd
    obtain ⟨m, t, hmem, -, hdef⟩ := mem_definitionsOf.1 (mem_of_richest hd)
    exact (isFlat_of_mem_mentions h hmem).definition d hdef

/-- The view of a flat source is flat. -/
theorem isFlat_ofSource {source : Source} (h : source.IsFlat) : (View.ofSource source).IsFlat where
  nodes := isFlat_nodes h
  links _ hr := isFlat_of_mem_statements h (mem_links hr)
  subgraphs g hg := by
    have hid : g.id ∈ (View.ofSource source).subgraphIds := List.mem_map_of_mem hg
    rw [subgraphIds_ofSource] at hid
    obtain ⟨st, hst, hget⟩ := List.mem_filterMap.1 hid
    obtain ⟨⟨i, st⟩, hmem, rfl⟩ := List.mem_map.1 hst
    have hflat := isFlat_of_mem_statements h hmem
    cases st with
    | subgraphOpen header => exact Option.some.inj hget ▸ hflat
    | _ => cases hget
  styles p hp := by
    rw [styles_ofSource] at hp
    obtain ⟨st, hflat, hget⟩ := isFlat_of_mem_found h hp
    cases st <;> cases hget
    exact hflat.2
  linkStyles p hp := by
    rw [linkStyles_ofSource] at hp
    obtain ⟨st, hflat, hget⟩ := isFlat_of_mem_found h hp
    cases st <;> cases hget
    exact hflat
  classes p hp := by
    rw [classes_ofSource] at hp
    obtain ⟨st, hflat, hget⟩ := isFlat_of_mem_found h hp
    cases st <;> cases hget
    exact hflat
  classDefs p hp := by
    rw [classDefs_ofSource] at hp
    obtain ⟨st, hflat, hget⟩ := isFlat_of_mem_found h hp
    cases st <;> cases hget
    exact hflat

end View

/-! ## Other ids -/

theorem isFlat_renameFrom {map : List (Text × Text)} (hmap : ∀ p ∈ map, Text.IsFlat p.2)
    (references : List IdReference) (start : Nat) (h : Text.IsFlat s) :
    Text.IsFlat (renameFrom map start s references) := by
  induction references generalizing start s with
  | nil => exact h
  | cons r references ih =>
    refine isFlat_append.2 ⟨isFlat_append.2 ⟨h.take _, ?_⟩, ih _ (h.drop _)⟩
    cases hlookup : map.lookup r.id with
    | none => exact (h.drop _).take _
    | some new =>
      obtain ⟨_, _, heq, -⟩ := List.lookup_eq_some_iff.1 hlookup
      exact hmap (r.id, new) (heq ▸ List.mem_append_right _ List.mem_cons_self)

end DiagramEditor.Flowchart
