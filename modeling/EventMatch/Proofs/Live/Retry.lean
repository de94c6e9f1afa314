import EventMatch.Proofs.Live.Snapshot
import EventMatch.Proofs.Live.Validation
import EventMatch.Proofs.Matcher.Additions

/-!
# Mutations made again

A caller who was told that a call was cancelled cannot know whether its mutation was
accepted, and may make it again. An identifier's texts are changed by its own mutations
only, one after the other (`texts?_fold`). Two histories after which a mutation would lead
to the same texts stay such whatever follows (`Mutation.change_step`), and a mutation and the
same one twice are two such histories. So the first of two equal mutations leaves no trace
in the live set (`perm_fold_retry`), and none in the matcher that is compiled from it, in
whatever order (`compileAlike_of_perm`).
-/

namespace EventMatch

variable {ι : Type}

namespace LiveSet

/-! ## Sorted texts -/

theorem textLT_or_eq_or_textLT (s t : String) : TextLT s t ∨ s = t ∨ TextLT t s := by
  by_cases he : s = t
  · exact .inr (.inl he)
  · rcases Bytes.leString_total s t with hle | hle
    · exact .inl ⟨hle, he⟩
    · exact .inr (.inr ⟨hle, fun e => he e.symm⟩)

theorem insertText_head (text : String) (rest : List String) : insertText text (text :: rest) = text :: rest :=
  if_pos rfl

/-- A text comes before all that are greater than it. -/
theorem insertText_of_lt {text t : String} (h : TextLT text t) (rest : List String) :
    insertText text (t :: rest) = text :: t :: rest := by
  rw [insertText, if_neg h.2, if_pos h.1]

theorem insertText_of_gt {text t : String} (h : TextLT t text) (rest : List String) :
    insertText text (t :: rest) = t :: insertText text rest := by
  have hle : ¬ Bytes.leString text t = true := fun hle => h.2 (Bytes.leString_antisymm h.1 hle)
  rw [insertText, if_neg fun e => h.2 e.symm, if_neg hle]

theorem insertText_self (text : String) : ∀ texts : List String,
    insertText text (insertText text texts) = insertText text texts
  | [] => insertText_head text []
  | t :: rest => by
    obtain hlt | rfl | hgt := textLT_or_eq_or_textLT text t
    · rw [insertText_of_lt hlt, insertText_head]
    · rw [insertText_head, insertText_head]
    · rw [insertText_of_gt hgt, insertText_of_gt hgt, insertText_self text rest]

theorem insertText_comm_of_lt {s t : String} (h : TextLT s t) : ∀ texts : List String,
    insertText s (insertText t texts) = insertText t (insertText s texts)
  | [] => (insertText_of_lt h []).trans (insertText_of_gt h []).symm
  | u :: rest => by
    obtain hsu | rfl | hus := textLT_or_eq_or_textLT s u
    · -- Wherever `t` goes, `s` comes before it.
      rw [insertText_of_lt hsu, insertText_of_gt h]
      obtain htu | rfl | hut := textLT_or_eq_or_textLT t u
      · rw [insertText_of_lt htu, insertText_of_lt h]
      · rw [insertText_head, insertText_of_lt hsu]
      · rw [insertText_of_gt hut, insertText_of_lt hsu]
    · rw [insertText_head, insertText_of_gt h, insertText_head]
    · rw [insertText_of_gt (hus.trans h), insertText_of_gt hus, insertText_of_gt hus,
        insertText_of_gt (hus.trans h), insertText_comm_of_lt h rest]

/-- Of two texts that are put into a list, either may come first. -/
theorem insertText_comm (s t : String) (texts : List String) :
    insertText s (insertText t texts) = insertText t (insertText s texts) := by
  obtain hlt | rfl | hgt := textLT_or_eq_or_textLT s t
  · exact insertText_comm_of_lt hlt texts
  · rfl
  · exact (insertText_comm_of_lt hgt texts).symm

end LiveSet

/-! ## The texts of one identifier -/

namespace Mutation

/-- What becomes of the texts of the identifier that is changed. Without an entry it has none. -/
def changeOwn : Mutation ι → Option (List String) → Option (List String)
  | add _ text, texts => some (LiveSet.insertText text (texts.getD []))
  | delete _, _ => none

variable {m : Mutation ι} {s t : Option (List String)}

theorem changeOwn_self (m : Mutation ι) (s : Option (List String)) : m.changeOwn (m.changeOwn s) = m.changeOwn s := by
  cases m with
  | add x text => exact congrArg some (LiveSet.insertText_self text _)
  | delete x => rfl

/-- If a mutation leads to the same texts, it still does after another one. -/
theorem changeOwn_step (h : m.changeOwn s = m.changeOwn t) (n : Mutation ι) :
    m.changeOwn (n.changeOwn s) = m.changeOwn (n.changeOwn t) := by
  cases m with
  | delete x => rfl
  | add x text =>
    cases n with
    | delete y => rfl
    | add y text' =>
      have h : LiveSet.insertText text (s.getD []) = LiveSet.insertText text (t.getD []) := Option.some.inj h
      refine congrArg some ?_
      show LiveSet.insertText text (LiveSet.insertText text' _) = LiveSet.insertText text (LiveSet.insertText text' _)
      rw [LiveSet.insertText_comm, h, LiveSet.insertText_comm]

variable [BEq ι] {id : ι}

/-- What becomes of the texts of an identifier. -/
def change (m : Mutation ι) (id : ι) (texts : Option (List String)) : Option (List String) :=
  if m.id == id then m.changeOwn texts else texts

theorem change_self (m : Mutation ι) (id : ι) (s : Option (List String)) :
    m.change id (m.change id s) = m.change id s := by
  simp only [change]
  split
  · exact changeOwn_self m s
  · rfl

theorem change_step (h : m.change id s = m.change id t) (n : Mutation ι) :
    m.change id (n.change id s) = m.change id (n.change id t) := by
  simp only [change] at h ⊢
  by_cases hm : m.id == id
  · rw [if_pos hm, if_pos hm] at h ⊢
    split
    · exact changeOwn_step h n
    · exact h
  · rw [if_neg hm, if_neg hm] at h
    rw [h]

/-- Whatever comes between, the first of two equal mutations leaves no trace. -/
theorem foldl_change_retry (m : Mutation ι) (id : ι) (between : List (Mutation ι)) (s : Option (List String)) :
    m.change id (between.foldl (fun s n => n.change id s) (m.change id s)) =
      m.change id (between.foldl (fun s n => n.change id s) s) := by
  suffices hsame : ∀ {s t : Option (List String)}, m.change id s = m.change id t →
      m.change id (between.foldl (fun s n => n.change id s) s) =
        m.change id (between.foldl (fun s n => n.change id s) t) from hsame (change_self m id s)
  induction between with
  | nil => exact fun h => h
  | cons n between ih => exact fun h => ih (change_step h n)

end Mutation

namespace LiveSet

variable [BEq ι]

/-- The texts of an identifier, if it has an entry. -/
def texts? (l : LiveSet ι) (id : ι) : Option (List String) := l.entries.lookup id

variable [LawfulBEq ι]

theorem lookup_insertEntry (x id : ι) (text : String) : ∀ entries : List (ι × List String),
    (insertEntry x text entries).lookup id = (Mutation.add x text).change id (entries.lookup id)
  | [] => by
    rw [insertEntry, List.lookup_cons, List.lookup_nil, Mutation.change, BEq.comm (b := x)]
    show _ = if x == id then _ else _
    cases x == id <;> rfl
  | (k, texts) :: rest => by
    rw [insertEntry]
    by_cases hk : k = x
    · subst hk
      rw [if_pos BEq.rfl, List.lookup_cons, List.lookup_cons, Mutation.change, BEq.comm (b := k)]
      show _ = if k == id then _ else _
      cases k == id <;> rfl
    · rw [if_neg fun h => hk (beq_iff_eq.mp h), List.lookup_cons, List.lookup_cons, lookup_insertEntry x id text rest]
      cases hid : id == k with
      | false => rfl
      | true =>
        have hne : ¬ (x == id) = true := fun h => hk ((beq_iff_eq.mp h).trans (beq_iff_eq.mp hid)).symm
        exact (if_neg hne).symm

theorem lookup_filter_ne (x id : ι) : ∀ entries : List (ι × List String),
    (entries.filter fun e => !(e.1 == x)).lookup id = (Mutation.delete x).change id (entries.lookup id)
  | [] => (ite_self _).symm
  | (k, texts) :: rest => by
    have ih := lookup_filter_ne x id rest
    by_cases hk : k = x
    · subst hk
      rw [List.filter_cons_of_neg (by simp), ih, List.lookup_cons, Mutation.change, Mutation.change, BEq.comm (b := k)]
      show (if k == id then _ else _) = if k == id then _ else _
      cases k == id <;> rfl
    · rw [List.filter_cons_of_pos (by simpa using hk), List.lookup_cons, List.lookup_cons, ih]
      cases hid : id == k with
      | false => rfl
      | true =>
        have hne : ¬ (x == id) = true := fun h => hk ((beq_iff_eq.mp h).trans (beq_iff_eq.mp hid)).symm
        exact (if_neg hne).symm

/-- A mutation changes the texts of its own identifier. -/
theorem texts?_apply (l : LiveSet ι) (m : Mutation ι) (id : ι) : (l.apply m).texts? id = m.change id (l.texts? id) := by
  cases m with
  | add x text => exact lookup_insertEntry x id text l.entries
  | delete x => exact lookup_filter_ne x id l.entries

theorem texts?_fold (l : LiveSet ι) (ms : List (Mutation ι)) (id : ι) :
    (l.fold ms).texts? id = ms.foldl (fun s m => m.change id s) (l.texts? id) := by
  induction ms generalizing l with
  | nil => rfl
  | cons m ms ih =>
    rw [List.foldl_cons, ← texts?_apply]
    exact ih (l.apply m)

theorem Ordered.fold {l : LiveSet ι} (h : l.Ordered) (ms : List (Mutation ι)) : (l.fold ms).Ordered := by
  induction ms generalizing l with
  | nil => exact h
  | cons m ms ih => exact ih (h.apply m)

theorem Ordered.mem_entries {l : LiveSet ι} (h : l.Ordered) {id : ι} {texts : List String} :
    (id, texts) ∈ l.entries ↔ l.texts? id = some texts := by
  rw [texts?, List.lookup_eq_some_iff]
  constructor
  · intro he
    obtain ⟨front, back, hsplit⟩ := List.append_of_mem he
    refine ⟨front, back, hsplit, fun e hf => bne_iff_ne.mpr fun hid => ?_⟩
    have hn := h.ids
    rw [hsplit, List.map_append, List.nodup_append] at hn
    exact hn.2.2 _ (List.mem_map_of_mem hf) _ (List.mem_map_of_mem List.mem_cons_self) hid.symm
  · rintro ⟨front, back, hsplit, -⟩
    rw [hsplit]
    exact List.mem_append_right _ List.mem_cons_self

/-- Live sets with the same texts for every identifier have the same entries. -/
theorem Ordered.perm {l l' : LiveSet ι} (h : l.Ordered) (h' : l'.Ordered) (hsame : ∀ id, l.texts? id = l'.texts? id) :
    l.entries.Perm l'.entries := by
  refine (List.perm_ext_iff_of_nodup h.ids.of_map h'.ids.of_map).mpr fun e => ?_
  rw [h.mem_entries, h'.mem_entries, hsame]

/-- The first of two equal mutations leaves no trace in the live set. -/
theorem perm_fold_retry {l : LiveSet ι} (h : l.Ordered) (m : Mutation ι) (before between after : List (Mutation ι)) :
    (l.fold (before ++ m :: (between ++ m :: after))).entries.Perm
      (l.fold (before ++ (between ++ m :: after))).entries := by
  refine (h.fold _).perm (h.fold _) fun id => ?_
  simp only [texts?_fold, List.foldl_append, List.foldl_cons, Mutation.foldl_change_retry]

/-! ## Compiled matchers -/

/-- The live sets both compile or neither does, and what they compile to holds as many
patterns and returns the same identifiers. -/
structure CompileAlike (template : Matcher ι) (l l' : LiveSet ι) : Prop where
  ok_iff : ∀ n n', (l.compile (template.withAsked n)).1 = .ok () ↔ (l'.compile (template.withAsked n')).1 = .ok ()
  answers : ∀ n n' m m', l.compile (template.withAsked n) = (.ok (), m) →
    l'.compile (template.withAsked n') = (.ok (), m') →
    m.size = m'.size ∧ ∀ fields id, id ∈ m.matchFields fields ↔ id ∈ m'.matchFields fields

omit [LawfulBEq ι] in
/-- If one of the live sets is compiled, the other can be at any time. -/
theorem CompileAlike.exists_compile {template m : Matcher ι} {l l' : LiveSet ι} (h : CompileAlike template l l') {n : Nat}
    (hm : l.compile (template.withAsked n) = (.ok (), m)) (n' : Nat) :
    ∃ m', l'.compile (template.withAsked n') = (.ok (), m') ∧ m.size = m'.size ∧
      ∀ fields id, id ∈ m.matchFields fields ↔ id ∈ m'.matchFields fields := by
  obtain ⟨m', hm'⟩ : ∃ m', l'.compile (template.withAsked n') = (.ok (), m') :=
    ⟨_, Prod.ext ((h.ok_iff n n').mp (congrArg Prod.fst hm)) rfl⟩
  exact ⟨m', hm', h.answers n n' m m' hm hm'⟩

section

variable {template : Matcher ι} (hparser : ∀ p, template.parser = some p → p.AnswersBySpec)

include hparser

omit [LawfulBEq ι] in
/-- Texts compile together just if each of them compiles alone. -/
theorem compile_ok_iff (l : LiveSet ι) (n : Nat) : (l.compile (template.withAsked n)).1 = .ok () ↔
    ∀ p ∈ l.pairs, (Mutation.add p.1 p.2).Compiles template := by
  have hempty := rootOk_empty (ι := ι) template.flattener template.parser n
  constructor
  · intro h
    obtain ⟨m, hm⟩ : ∃ m, (Matcher.empty template.flattener template.parser n).addAll l.pairs = (.ok (), m) :=
      ⟨_, Prod.ext h rfl⟩
    obtain ⟨_, _, -, -, hall⟩ := Matcher.addAll_ok hempty hm
    obtain ⟨ps, s, hcompile, -, -⟩ := hall ⟨0, n⟩ rfl
    have hcompiles : ∀ (p : ι × String) (alone : Solo ι),
        (∃ t t', (Solo.compile template.parser p.1 p.2).exec t = (.ok alone, t')) →
          (Mutation.add p.1 p.2).Compiles template ∧ True := fun p alone ⟨t, t', ht⟩ => by
      have hreadable := (Solo.exec_compile_iff p.1).mp ⟨alone, t', ht⟩
      exact ⟨fun k => (Matcher.alone_congr hparser (Matcher.alone_ok_iff.mpr hreadable)).1, trivial⟩
    exact ((List.forall₂_and_left _ _).mp ((Solo.forall₂_of_exec hcompile).imp hcompiles)).1
  · intro h
    obtain ⟨m, hm, -⟩ := Matcher.exists_addAll hempty h
    exact congrArg Prod.fst hm

/-- The compiled matcher answers as the live texts do alone. -/
theorem compile_eq_ok {l : LiveSet ι} (hl : l.pairs.Nodup) {n : Nat} {m : Matcher ι}
    (hm : l.compile (template.withAsked n) = (.ok (), m)) : m.size = l.size ∧ ∀ fields id,
      id ∈ m.matchFields fields ↔ ∃ text, (id, text) ∈ l.pairs ∧ id ∈ (template.alone 0 id text).2.matchFields fields := by
  have halone := (compile_ok_iff hparser l n).mp (congrArg Prod.fst hm)
  obtain ⟨m', hm', hsize, -, asked, hmem⟩ := Matcher.addAll_alone template n hl halone
  obtain rfl : m' = m := congrArg Prod.snd (hm'.symm.trans hm)
  refine ⟨hsize, fun fields id => (hmem id fields).trans (exists_congr fun text => and_congr_right fun h => ?_)⟩
  rw [(Matcher.alone_congr hparser (halone (id, text) h 0)).2]

/-- Nothing of what is compiled depends on the order of the pairs. -/
theorem compileAlike_of_perm {l l' : LiveSet ι} (hl : l.pairs.Nodup) (hp : l.pairs.Perm l'.pairs) :
    CompileAlike template l l' where
  ok_iff n n' := by
    rw [compile_ok_iff hparser, compile_ok_iff hparser]
    exact ⟨fun h p hp' => h p (hp.mem_iff.mpr hp'), fun h p hp' => h p (hp.mem_iff.mp hp')⟩
  answers n n' m m' hm hm' := by
    obtain ⟨hsize, hmem⟩ := compile_eq_ok hparser hl hm
    obtain ⟨hsize', hmem'⟩ := compile_eq_ok hparser (hp.nodup_iff.mp hl) hm'
    refine ⟨hsize.trans (hp.length_eq.trans hsize'.symm), fun fields id => ?_⟩
    rw [hmem, hmem']
    simp only [hp.mem_iff]

end

end LiveSet

/-! ## Retries -/

variable [BEq ι]

/-- A coordinator that is idle with nothing pending holds all that was accepted, and has
published what that compiles to. -/
theorem Coordinator.idle_run {template : Matcher ι} {capacity : Option Nat} {signals : List (Signal ι)} {live : LiveSet ι} :
    let first := start template capacity
    let c := first.run signals
    c.isRunning → c.work = .idle live → c.pending = [] →
      live = ({} : LiveSet ι).fold (first.accepted signals) ∧
        ∃ n, live.compile (template.withAsked n) = (.ok (), c.published) := by
  intro first c hr hw hpending
  have h := prefixes_run template capacity signals
  obtain ⟨hpublished, hlive⟩ := h.idle hr live hw
  have htaken : (first.accepted signals).length ≤ (first.marks 0 ⟨0, 0⟩ signals).taken :=
    List.drop_eq_nil_iff.mp ((h.pending hr).symm.trans hpending)
  obtain ⟨n, hn⟩ := h.published
  rw [List.take_of_length_le htaken] at hlive
  rw [hpublished, List.take_of_length_le htaken, ← hlive] at hn
  exact ⟨hlive, n, hn⟩

variable [LawfulBEq ι]

/-- When two letters with one mutation have been received and everything accepted has been folded, the
live set is as if the first had not come, and is what the published matcher was compiled from. -/
theorem Exchange.perm_retry {template : Matcher ι} {capacity : Option Nat} {actions : List (Action ι)}
    {front between back : List (Letter ι)} {l l' : Letter ι} {live : LiveSet ι} :
    let x := (start template capacity).run actions
    x.received = front ++ l :: (between ++ l' :: back) → l.mutation = l'.mutation →
    x.coordinator.isRunning → x.coordinator.work = .idle live → x.coordinator.pending = [] →
      live.Ordered ∧
        live.entries.Perm (({} : LiveSet ι).fold ((front ++ (between ++ l' :: back)).map Letter.mutation)).entries ∧
        ∃ n, live.compile (template.withAsked n) = (.ok (), x.coordinator.published) := by
  intro x hreceived hsame hr hw hpending
  have haccepted : x.accepted = (Coordinator.start template capacity).accepted
      ((start template capacity).signalsOf actions) := (tied_start template capacity).accepted_run actions
  have hx : x.coordinator = (Coordinator.start template capacity).run ((start template capacity).signalsOf actions) :=
    coordinator_run _ actions
  rw [hx] at hr hw hpending ⊢
  obtain ⟨hlive, hcompile⟩ := Coordinator.idle_run hr hw hpending
  have hlog : x.accepted = front.map Letter.mutation ++ l'.mutation ::
      (between.map Letter.mutation ++ l'.mutation :: back.map Letter.mutation) := by
    rw [accepted, hreceived]
    simp [hsame]
  have hperm := LiveSet.perm_fold_retry (LiveSet.ordered_fold []) l'.mutation (front.map Letter.mutation)
    (between.map Letter.mutation) (back.map Letter.mutation)
  rw [← hlog, haccepted, show ({} : LiveSet ι).fold [] = {} from rfl, ← hlive] at hperm
  refine ⟨hlive ▸ LiveSet.ordered_fold _, ?_, hcompile⟩
  rw [List.map_append, List.map_append, List.map_cons]
  exact hperm

/-- A mutation that is made again after any others leaves the live set as if it had been made
the second time only. So whatever the caller of the first call was told, nothing of it is left
when everything accepted has been folded, and queries get the same answers. -/
theorem Exchange.retry_leaves_no_trace (template : Matcher ι) :
    (∀ l : LiveSet ι, l.Ordered → ∀ (m : Mutation ι) (before between after : List (Mutation ι)),
      let once := l.fold (before ++ (between ++ m :: after))
      let twice := l.fold (before ++ m :: (between ++ m :: after))
      twice.entries.Perm once.entries ∧ twice.size = once.size ∧
      -- Both can be compiled in the same orders,
      (∀ order : List (ι × List String), order.Perm twice.entries ↔ order.Perm once.entries) ∧
      -- and with a parser that answers by the spec alone the order makes no difference.
      ((∀ p, template.parser = some p → p.AnswersBySpec) →
        ∀ order order' : List (ι × List String), order.Perm twice.entries → order'.Perm once.entries →
          LiveSet.CompileAlike template ⟨order⟩ ⟨order'⟩)) ∧
    -- The first of two letters with one mutation might as well not have been received.
    ∀ (capacity : Option Nat) (actions : List (Action ι)) (front between back : List (Letter ι)) (l l' : Letter ι),
      let x := (start template capacity).run actions
      x.received = front ++ l :: (between ++ l' :: back) → l.mutation = l'.mutation →
      ∀ live, x.coordinator.isRunning → x.coordinator.work = .idle live → x.coordinator.pending = [] →
        let once := ({} : LiveSet ι).fold ((front ++ (between ++ l' :: back)).map Letter.mutation)
        live.entries.Perm once.entries ∧ live.size = once.size ∧
        ((∀ p, template.parser = some p → p.AnswersBySpec) → ∀ n order, order.Perm once.entries →
          ∃ m, (LiveSet.mk order).compile (template.withAsked n) = (.ok (), m) ∧
            x.coordinator.published.size = m.size ∧
            ∀ fields id, id ∈ x.coordinator.published.matchFields fields ↔ id ∈ m.matchFields fields) := by
  constructor
  · intro l hl m before between after once twice
    have hperm : twice.entries.Perm once.entries := LiveSet.perm_fold_retry hl m before between after
    refine ⟨hperm, (LiveSet.pairs_perm hperm).length_eq, fun order => ⟨fun h => h.trans hperm, fun h => h.trans hperm.symm⟩,
      fun hparser order order' h h' => ?_⟩
    have horders := LiveSet.pairs_perm (h.trans (hperm.trans h'.symm))
    have hn : (LiveSet.mk order).pairs.Nodup := (LiveSet.pairs_perm h).nodup_iff.mpr (hl.fold _).nodup_pairs
    exact LiveSet.compileAlike_of_perm hparser hn horders
  · intro capacity actions front between back l l' x hreceived hsame live hr hw hpending once
    obtain ⟨hordered, hperm, n, hn⟩ := perm_retry hreceived hsame hr hw hpending
    refine ⟨hperm, (LiveSet.pairs_perm hperm).length_eq, fun hparser n' order horder => ?_⟩
    have halike : LiveSet.CompileAlike template live ⟨order⟩ := LiveSet.compileAlike_of_perm hparser
      hordered.nodup_pairs (LiveSet.pairs_perm (hperm.trans horder.symm))
    exact halike.exists_compile hn n'

/-- The first call is told that it was cancelled when its letter lies in the slot. Before it is made
again, its identifier is deleted and another one gets a text. -/
theorem Exchange.retry_leaves_no_trace_cancelled :
    let template : Matcher Bool := .empty Json.flatten
    let text := "\x7b\"a\":[true]\x7d"
    let x := (start template none).run
      [.add true text false, .giveUp 0, .receive, .delete true false, .receive, .add false text false, .receive,
        .add true text false, .receive, .trigger, .finish]
    x.calls.head?.any (fun | .answered (.error .cancelled) => true | _ => false) = true ∧
      x.accepted = [.add true text, .delete true, .add false text, .add true text] ∧
      ∃ live m, x.coordinator.work = .idle live ∧ live.size = 2 ∧
        (({} : LiveSet Bool).fold [.delete true, .add false text, .add true text]).compile template = (.ok (), m) ∧
        ∀ fields id, id ∈ x.coordinator.published.matchFields fields ↔ id ∈ m.matchFields fields := by
  intro template text x
  have hparser : ∀ p, template.parser = some p → p.AnswersBySpec := fun p h => by cases h
  have hreceived : x.received = [] ++ ⟨0, .add true text⟩ ::
    ([⟨1, .delete true⟩, ⟨2, .add false text⟩] ++ ⟨3, .add true text⟩ :: []) := by decide +kernel
  have hrunning : x.coordinator.isRunning = true := by decide +kernel
  have hpending : x.coordinator.pending = [] := by decide +kernel
  have hidle : (match x.coordinator.work with | .idle live => live.size | .rebuilding _ _ => 0) = 2 := by decide +kernel
  have hcancelled : x.calls.head?.any (fun | .answered (.error .cancelled) => true | _ => false) = true := by
    decide +kernel
  obtain ⟨live, hwork, hsize⟩ : ∃ live, x.coordinator.work = .idle live ∧ live.size = 2 := by
    cases hwork : x.coordinator.work with
    | idle live => exact ⟨live, rfl, by simpa [hwork] using hidle⟩
    | rebuilding base batch => simp [hwork] at hidle
  obtain ⟨-, -, hsame⟩ := (retry_leaves_no_trace template).2 none _ _ _ _ _ _ hreceived rfl live hrunning hwork hpending
  obtain ⟨m, hm, -, hmem⟩ := hsame hparser 0 _ (.refl _)
  exact ⟨hcancelled, by rw [accepted, hreceived]; rfl, live, m, hwork, hsize, hm, hmem⟩

end EventMatch
