/-
  CallGraph.Proofs.Stages — what an entered block did on the way.

  Running a block is a chain of steps, each of which may stop with a fault. Where it came to its end,
  so did every step, and each is inverted here on its own: `enterBlock_stages` names the states
  between them, `pushContext_eq`, `link_eq` and `pushFrame_eq` say what a step changed.
-/

import CallGraph.Proofs.Entering
import CallGraph.Proofs.Unwinding

namespace CallGraph.Tracker

variable {t t' : Tracker}

/-- The outcomes of the steps of running a block on the thread that runs now, up to the pushed frame. -/
structure Stages (t : Tracker) (pos : Position) (id : BlockId) (source : Option Departure) (r : Resident)
    (x : Transfer) (skip : Bool) (c : ContextId) (a : AnchorId) (t₁ t₂ t₃ t₄ : Tracker) : Prop where
  departure : t.departure = .ok source
  block : t.blocks.get? id = some r
  transfer : Transfer.classify t.config.tailCalls source r.block pos.sp t.thread.shadow.frames t.thread.bottom = x
  pops : popCalls x.pops (t.countTransfer x) = .ok t₁
  prepared : t₁.prepare x r.block.fn = .ok (skip, t₂)
  context : t₂.thread.exec.context = some c
  billed : t₂.billTo { block := id, context := c, thread := pos.thread } (source.map (·.anchor)) = .ok (a, t₃)
  linked : t₃.link source x a skip = .ok t₄

/-- The last step of running a block: its anchor is the last one now. -/
def settle (t : Tracker) (a : AnchorId) : Tracker :=
  t.setThread { t.thread with exec := { t.thread.exec with anchor := some a, exitsPassed := 0 } }

/-- What `enterBlock` does once the context of the block is active. -/
def charge (t : Tracker) (pos : Position) (id : BlockId) (source : Option Departure) (x : Transfer) (skip : Bool) :
    Except Fault (AnchorId × Tracker) :=
  match t.thread.exec.context with
  | none => throw (.noActiveContext id)
  | some context => do
    let (a, t) ← t.billTo { block := id, context, thread := pos.thread } (source.map (·.anchor))
    let t ← t.link source x a skip
    pure (a, t.settle a)

theorem enterBlock_eq (t : Tracker) (pos : Position) (id : BlockId) :
    t.enterBlock pos id = (do
      let source ← (t.switchTo pos.thread).departure
      let r ← (t.switchTo pos.thread).blocks.get id
      let x := Transfer.classify (t.switchTo pos.thread).config.tailCalls source r.block pos.sp
        (t.switchTo pos.thread).thread.shadow.frames (t.switchTo pos.thread).thread.bottom
      let t₁ ← popCalls x.pops ((t.switchTo pos.thread).countTransfer x)
      let (skip, t₂) ← t₁.prepare x r.block.fn
      t₂.charge pos id source x skip) := by
  unfold enterBlock
  refine bind_congr fun source => bind_congr fun r => bind_congr fun t₁ => ?_
  generalize Transfer.classify _ _ _ _ _ _ = x
  have hrest : ∀ (p skip : Bool) (m : Except Fault Tracker),
      (if p = true then (do let t₂ ← m; t₂.charge pos id source x skip)
        else do let t₂ ← pure t₁; t₂.charge pos id source x skip) =
      ((if p = true then (do let t₂ ← m; pure (skip, t₂)) else do let t₂ ← pure t₁; pure (skip, t₂)) >>=
        fun q => q.2.charge pos id source x q.1) := by
    intro p skip m
    cases p with
    | true => cases m <;> rfl
    | false => rfl
  unfold prepare
  cases hen : x.enters with
  | false => exact hrest (false && !false || t₁.thread.exec.context.isNone) false (t₁.pushContext r.block.fn)
  | true =>
    cases hf : t₁.functions.get r.block.fn with
    | error e => rfl
    | ok f => exact hrest (true && !f.skip || t₁.thread.exec.context.isNone) f.skip (t₁.pushContext r.block.fn)

theorem enterBlock_stages {pos : Position} {id : BlockId} {a : AnchorId} (h : t.enterBlock pos id = .ok (a, t')) :
    ∃ source r x skip c t₁ t₂ t₃ t₄, Stages (t.switchTo pos.thread) pos id source r x skip c a t₁ t₂ t₃ t₄ ∧
      t' = t₄.settle a := by
  rw [enterBlock_eq] at h
  simp only [bind_eq_ok] at h
  obtain ⟨source, hdep, r, hblock, t₁, hpop, ⟨skip, t₂⟩, hprepare, h⟩ := h
  have hblock := BlockTable.get_eq_ok_iff.mp hblock
  unfold charge at h
  split at h
  · cases h
  · rename_i c hctx
    simp only [bind_eq_ok] at h
    obtain ⟨⟨a', t₃⟩, hbill, t₄, hlink, h⟩ := h
    cases h
    exact ⟨source, r, _, skip, c, t₁, t₂, t₃, t₄, ⟨hdep, hblock, rfl, hpop, hprepare, hctx, hbill, hlink⟩, rfl⟩

/-! ## The context -/

theorem decls_of_interned {C C' : ContextTable} {F F' : FunctionTable} {chain : List FnId} {c : Option ContextId}
    (i : C.Interned F chain c C' F') (g : FnId) : F'.decl? g = F.decl? g := by
  rcases i.functions with rfl | ⟨fn, d, rfl⟩
  · rfl
  · exact FunctionTable.decl?_modify (f := fun f => { f with hint := some d }) (fun _ => rfl) g

/-- Whether a function that was not active is active now. -/
def wakes (fn : FnId) (F F' : FunctionTable) : Bool := F.activeCount fn = 0 && 0 < F'.activeCount fn

theorem wakes_of_le {fn : FnId} {F F' : FunctionTable} (h : F'.activeCount fn ≤ F.activeCount fn) :
    wakes fn F F' = false := by
  simp only [wakes, Bool.and_eq_false_iff, decide_eq_false_iff_not]
  omega

/-- Activations of a function were opened at most, and an entry was counted if it became active. -/
structure Enters (fn : FnId) (F F' : FunctionTable) (l l' : Ledger) : Prop where
  activity : F.activeCount fn ≤ F'.activeCount fn
  entries : l'.entries = l.entries + (wakes fn F F').toNat

theorem Enters.of_same {fn : FnId} {F F' : FunctionTable} {l l' : Ledger}
    (hF : F'.activeCount fn = F.activeCount fn) (hl : l'.entries = l.entries) : Enters fn F F' l l' := by
  refine ⟨Nat.le_of_eq hF.symm, ?_⟩
  rw [hl, wakes_of_le (Nat.le_of_eq hF)]
  rfl

theorem Enters.trans {fn : FnId} {F F' F'' : FunctionTable} {l l' l'' : Ledger} (e : Enters fn F F' l l')
    (e' : Enters fn F' F'' l' l'') : Enters fn F F'' l l'' := by
  have hle := e.activity
  have hle' := e'.activity
  refine ⟨Nat.le_trans hle hle', ?_⟩
  rw [e'.entries, e.entries]
  by_cases hzero : F.activeCount fn = 0
  · by_cases hzero' : F'.activeCount fn = 0
    · simp [wakes, hzero, hzero']
    · have hpos : 0 < F''.activeCount fn := by omega
      simp [wakes, hzero, hzero', hpos, Nat.pos_of_ne_zero hzero']
  · have hne : F'.activeCount fn ≠ 0 := by omega
    simp [wakes, hzero, hne]

theorem enterFunction_eq {fn : FnId} (h : t.enterFunction fn = .ok t') :
    ∃ F L, t' = { t with functions := F, ledger := L } ∧ F.size = t.functions.size ∧
      (∀ g, F.decl? g = t.functions.decl? g) ∧ t.ledger.SameCalls L ∧ Enters fn t.functions F t.ledger L := by
  simp only [enterFunction, FunctionTable.enter, bind_eq_ok] at h
  obtain ⟨⟨first, F⟩, ⟨f, hf, hF⟩, h⟩ := h
  cases hF
  cases h
  have hf : t.functions.nodes[fn.num]? = some f := by
    unfold FunctionTable.get at hf
    split at hf
    · cases hf
    · rename_i hnode
      cases hf
      exact hnode
  have hbefore : t.functions.activeCount fn = f.active := by simp only [FunctionTable.activeCount, hf]; rfl
  have hafter : (t.functions.modify fn fun f => { f with active := f.active + 1 }).activeCount fn = f.active + 1 := by
    rw [FunctionTable.activeCount_modify, if_pos rfl, hf]
    rfl
  refine ⟨_, _, rfl, FunctionTable.size_modify .., FunctionTable.decl?_modify fun _ => rfl, ?_, ?_, ?_⟩
  · split <;> exact ⟨rfl, rfl⟩
  · rw [hbefore, hafter]
    exact Nat.le_succ _
  · rw [wakes, hbefore, hafter]
    by_cases hzero : f.active = 0
    · simp [hzero, Ledger.enter, Ledger.report]
    · simp [hzero]

/-- The caller's context was staged, and the function is on top of the stack with its context active. -/
structure Interns (t t' : Tracker) (fn : FnId) : Prop where
  config : t'.config = t.config
  blocks : t'.blocks = t.blocks
  anchors : t'.anchors = t.anchors
  stats : t'.stats = t.stats
  current : t'.threads.current = t.threads.current
  parked : t'.threads.parked = t.threads.parked
  size : t'.functions.size = t.functions.size
  decls : ∀ g, t'.functions.decl? g = t.functions.decl? g
  ledger : t.ledger.SameCalls t'.ledger
  enters : Enters fn t.functions t'.functions t.ledger t'.ledger
  thread : t'.thread = { t.thread with
    shadow := { t.thread.shadow with staged := { context := t.thread.exec.context, fnDepth := t.thread.fns.slots.length } }
    fns := ⟨if t.thread.fns.top? = some fn then t.thread.fns.slots else some fn :: t.thread.fns.slots⟩
    exec := { t.thread.exec with context := t'.thread.exec.context } }
  contexts : if t.thread.fns.top? = some fn then t'.contexts = t.contexts ∧ t'.thread.exec.context = t.thread.exec.context
    else ∃ F, t.contexts.intern F (FnStack.chain ⟨some fn :: t.thread.fns.slots⟩) =
      .ok (t'.thread.exec.context, t'.contexts, t'.functions) ∧ F.size = t.functions.size

theorem Interns.extends {fn : FnId} (i : Interns t t' fn) : t.contexts.Extends t'.contexts := by
  have h := i.contexts
  split at h
  · rw [h.1]
    exact .refl _
  · obtain ⟨F, hintern, -⟩ := h
    exact (ContextTable.interned hintern).extends

theorem Interns.new {fn : FnId} (i : Interns t t' fn) {c : ContextId} {x : Context} (hx : t'.contexts.get? c = some x) :
    t.contexts.get? c = some x ∨ t'.thread.exec.context = some c := by
  have h := i.contexts
  split at h
  · rw [h.1] at hx
    exact .inl hx
  · obtain ⟨F, hintern, -⟩ := h
    exact (ContextTable.interned hintern).new hx

theorem pushContext_eq {fn : FnId} (h : t.pushContext fn = .ok t') : Interns t t' fn := by
  simp only [pushContext, bind_eq_ok] at h
  obtain ⟨shadow, hstage, h⟩ := h
  unfold ShadowStack.stage at hstage
  split at hstage
  · cases hstage
  · cases hstage
    split at h
    · rename_i htop
      cases h
      refine ⟨rfl, rfl, rfl, rfl, rfl, rfl, rfl, fun _ => rfl, ⟨rfl, rfl⟩, .of_same rfl rfl, ?_, ?_⟩
      · rw [if_pos htop]
        rfl
      · rw [if_pos htop]
        exact ⟨rfl, rfl⟩
    · rename_i htop
      -- The first function of a thread or handler gets its activation here.
      have hrest : ∀ t₁ : Tracker, (∃ F L, t₁ = { t with functions := F, ledger := L } ∧ F.size = t.functions.size ∧
          (∀ g, F.decl? g = t.functions.decl? g) ∧ t.ledger.SameCalls L ∧ Enters fn t.functions F t.ledger L) →
          (do let r ← t₁.contexts.intern t₁.functions (t.thread.fns.push (some fn)).chain
              pure ({ t₁ with contexts := r.2.1, functions := r.2.2 }.setThread
                { t.thread with
                  shadow := { t.thread.shadow with staged := { context := t.thread.exec.context, fnDepth := t.thread.fns.depth } }
                  fns := t.thread.fns.push (some fn), exec := { t.thread.exec with context := r.1 } })) = Except.ok t' →
          Interns t t' fn := by
        intro t₁ ht₁ hintern
        obtain ⟨F, L, rfl, hsize, hdecls, hledger, henters⟩ := ht₁
        simp only [bind_eq_ok] at hintern
        obtain ⟨⟨c, C, F'⟩, hintern, h⟩ := hintern
        cases h
        have i := ContextTable.interned hintern
        refine ⟨rfl, rfl, rfl, rfl, rfl, rfl, i.size.trans hsize, fun g => (decls_of_interned i g).trans (hdecls g),
          hledger, henters.trans (.of_same (i.activeCount fn) rfl), ?_, ?_⟩
        · rw [if_neg htop]
          rfl
        · rw [if_neg htop]
          exact ⟨F, hintern, hsize⟩
      split at h
      · obtain ⟨t₁, henter, h⟩ := bind_eq_ok.mp h
        exact hrest t₁ (enterFunction_eq henter) h
      · exact hrest t ⟨_, _, rfl, rfl, fun _ => rfl, ⟨rfl, rfl⟩, .of_same rfl rfl⟩ h

theorem prepare_eq {x : Transfer} {fn : FnId} {skip : Bool} (h : t.prepare x fn = .ok (skip, t')) :
    (x.enters = true → ∃ f, t.functions.decl? fn = some f ∧ skip = f.skip) ∧ (x.enters = false → skip = false) ∧
      if (x.enters && !skip || t.thread.exec.context.isNone) = true then Interns t t' fn else t' = t := by
  have hpushed : ∀ {p s : Bool}, (if p = true then (do let t₁ ← t.pushContext fn; pure (s, t₁)) else pure (s, t)) =
      Except.ok (skip, t') → s = skip ∧ if p = true then Interns t t' fn else t' = t := by
    intro p s hp
    obtain ⟨rfl, ⟨rfl, hpush⟩ | ⟨rfl, rfl⟩⟩ := pushed_or_kept hp
    · exact ⟨rfl, pushContext_eq hpush⟩
    · exact ⟨rfl, rfl⟩
  unfold prepare at h
  cases hen : x.enters with
  | false =>
    simp only [hen, Bool.false_eq_true, if_false] at h
    obtain ⟨rfl, h'⟩ := hpushed h
    exact ⟨nofun, fun _ => rfl, h'⟩
  | true =>
    simp only [hen, if_true, bind_eq_ok] at h
    obtain ⟨f, hf, s, hs, h⟩ := h
    cases hs
    obtain ⟨rfl, h'⟩ := hpushed h
    refine ⟨fun _ => ?_, nofun, h'⟩
    unfold FunctionTable.get at hf
    split at hf
    · cases hf
    · rename_i f' hnode
      cases hf
      exact ⟨{ f with hint := none, active := 0 }, by simp only [FunctionTable.decl?, hnode, Option.map_some], rfl⟩

/-! ## The anchor -/

/-- Whether the anchor that followed the last one before is the one of the key. -/
def followed (d : Directory) (last : Option AnchorId) (key : AnchorKey) : Bool :=
  ((last.bind d.get?).bind (·.next)).any fun a => d.holds a key

/-- Only the counts of how anchors were found differ. -/
structure Stats.Found (s s' : Stats) (hit : Bool) : Prop where
  lruHits : s'.lruHits = s.lruHits + hit.toNat
  others : { s' with lruHits := 0, blockHintHits := 0, directoryProbes := 0, anchorClones := 0 } =
    { s with lruHits := 0, blockHintHits := 0, directoryProbes := 0, anchorClones := 0 }

/-- A new anchor is listed at its block. -/
theorem spawnAnchor_eq {key : AnchorKey} {a : AnchorId} (h : t.spawnAnchor key = .ok (a, t')) :
    ∃ A, t.anchors.spawn key = .ok (a, A) ∧
      t' = { t with anchors := A, blocks := t.blocks.addAnchor key.block a } := by
  obtain ⟨⟨a', A⟩, hspawn, h⟩ := bind_eq_ok.mp h
  cases h
  exact ⟨A, hspawn, rfl⟩

theorem hintAfter_followed {last hint : Option AnchorId} (h : t.hintAfter last = .ok hint) (key : AnchorKey) :
    followed t.anchors last key = (hint.filter fun a => t.anchors.holds a key).isSome := by
  cases last with
  | none =>
    cases h
    rfl
  | some l =>
    simp only [hintAfter, bind_eq_ok] at h
    obtain ⟨y, hy, hnext⟩ := h
    cases hnext
    simp only [followed, Option.bind_some, Directory.get_eq_ok_iff.mp hy]
    cases y.next with
    | none => rfl
    | some n => cases hn : t.anchors.holds n key <;> simp [hn]

/-- The anchor was there and is noted at its block, or it was made. -/
theorem billTo_eq {key : AnchorKey} {last : Option AnchorId} {a : AnchorId} {r : Resident}
    (hr : t.blocks.get? key.block = some r) (h : t.billTo key last = .ok (a, t')) :
    ∃ S, Stats.Found t.stats S (!r.anchors.isEmpty && followed t.anchors last key) ∧
      (t.anchors.holds a key = true ∧ t' = { t with blocks := t.blocks.setRecent key.block a, stats := S } ∨
        ∃ A, t.anchors.spawn key = .ok (a, A) ∧
          t' = { t with anchors := A, blocks := t.blocks.addAnchor key.block a, stats := S }) := by
  simp only [billTo, BlockTable.get_eq_ok hr, ok_bind] at h
  split at h
  · rename_i hempty
    obtain ⟨A, hspawn, rfl⟩ := spawnAnchor_eq h
    rw [hempty]
    exact ⟨t.stats, ⟨rfl, rfl⟩, .inr ⟨A, hspawn, rfl⟩⟩
  · rename_i hempty
    obtain ⟨hint, hhint, h⟩ := bind_eq_ok.mp h
    rw [Bool.eq_false_iff.mpr hempty, hintAfter_followed hhint, Bool.not_false, Bool.true_and]
    -- The places where the anchor is looked for, in their order; only the first one is a hit.
    split at h
    · rename_i a' ha
      cases h
      rw [ha]
      refine ⟨_, ?_, .inl ⟨(Option.filter_eq_some_iff.mp ha).2, rfl⟩⟩
      exact ⟨rfl, rfl⟩
    · rename_i hnone
      rw [hnone]
      split at h
      · rename_i a' ha
        cases h
        refine ⟨_, ?_, .inl ⟨(Option.filter_eq_some_iff.mp ha).2, rfl⟩⟩
        exact ⟨rfl, rfl⟩
      · obtain ⟨found, hfind, h⟩ := bind_eq_ok.mp h
        cases found with
        | some a' =>
          cases h
          refine ⟨_, ?_, .inl ⟨Directory.holds_iff.mpr (Directory.find_holds hfind), rfl⟩⟩
          exact ⟨rfl, rfl⟩
        | none =>
          obtain ⟨A, hspawn, rfl⟩ := spawnAnchor_eq h
          refine ⟨_, ?_, .inr ⟨A, hspawn, rfl⟩⟩
          exact ⟨rfl, rfl⟩

/-! ## The frame -/

/-- The block of an anchor. -/
def blockOf (t : Tracker) (a : AnchorId) : Option Block :=
  (t.anchors.get? a).bind fun y => (t.blocks.get? y.key.block).map (·.block)

/-- An anchor and its block were both there. -/
theorem block_of_gets {α : Type} {a : AnchorId} {f : Block → Except Fault α} {x : α}
    (h : (do
      let y ← t.anchors.get a
      let r ← t.blocks.get y.key.block
      f r.block) = .ok x) : ∃ b, t.blockOf a = some b ∧ f b = .ok x := by
  simp only [bind_eq_ok] at h
  obtain ⟨y, hy, r, hr, h⟩ := h
  refine ⟨r.block, ?_, h⟩
  have hr := BlockTable.get_eq_ok_iff.mp hr
  simp only [blockOf, Directory.get_eq_ok_iff.mp hy, Option.bind_some, hr, Option.map_some]

theorem departure_eq {source : Option Departure} (h : t.departure = .ok source) :
    (t.thread.exec.anchor = none ∧ source = none) ∨
      ∃ a b, t.thread.exec.anchor = some a ∧ t.blockOf a = some b ∧
        source = some { anchor := a, block := b, exit := (b.exitAfter t.thread.exec.exitsPassed).1
                        kind := (b.exitAfter t.thread.exec.exitsPassed).2.kind } := by
  unfold departure at h
  split at h
  · rename_i ha
    cases h
    exact .inl ⟨ha, rfl⟩
  · rename_i a ha
    obtain ⟨b, hb, h⟩ := block_of_gets (f := fun b =>
      pure (some (Departure.mk a b (b.exitAfter t.thread.exec.exitsPassed).1
        (b.exitAfter t.thread.exec.exitsPassed).2.kind))) h
    cases h
    exact .inr ⟨a, b, ha, hb, rfl⟩

/-- A call comes from the last costed anchor and its final exit, or from where control comes from. -/
theorem callSource_eq {d : Departure} {s : AnchorId} {n : Nat} (h : t.callSource d = .ok (s, n)) :
    (t.thread.exec.costed = none ∧ s = d.anchor ∧ n = d.exit) ∨
      ∃ b, t.thread.exec.costed = some s ∧ t.blockOf s = some b ∧ n = b.finalIndex := by
  unfold callSource at h
  split at h
  · rename_i hc
    cases h
    exact .inl ⟨hc, rfl, rfl⟩
  · rename_i a hc
    obtain ⟨b, hb, h⟩ := block_of_gets (f := fun b => pure (a, b.finalIndex)) h
    cases h
    exact .inr ⟨b, hc, hb, rfl⟩

theorem returnAddressOf_eq {source : AnchorId} {exit : Nat} {addr : Addr}
    (h : t.returnAddressOf source exit = .ok addr) :
    ∃ b o, t.blockOf source = some b ∧ b.returnAddress exit = .ok o ∧ addr = o.getD .unknown := by
  obtain ⟨b, hb, h⟩ := block_of_gets (f := fun b => do
    let addr ← b.returnAddress exit
    pure (addr.getD .unknown)) h
  obtain ⟨o, ho, h⟩ := bind_eq_ok.mp h
  cases h
  exact ⟨b, o, hb, ho, rfl⟩

/-- The arc of a call was counted between the functions of its anchors. -/
structure Opens (t : Tracker) (source : AnchorId) (exit : Nat) (target : AnchorId) (arc : CallArc) (F : FunctionTable)
    (L : Ledger) : Prop where
  caller : t.functionOf source = .ok arc.caller
  callee : t.functionOf target = .ok arc.callee
  ledger : (t.ledger.call { source, exit, target }).2.SameCalls L
  enters : Enters arc.callee t.functions F t.ledger L

theorem entries_call (l : Ledger) (arc : Arc) : (l.call arc).2.entries = l.entries := by
  unfold Ledger.call
  split <;> rfl

theorem openArc_eq {source target : AnchorId} {exit : Nat} {arc : CallArc}
    (h : t.openArc source exit target = .ok (arc, t')) :
    ∃ F L, t' = { t with functions := F, ledger := L } ∧ F.size = t.functions.size ∧
      (∀ g, F.decl? g = t.functions.decl? g) ∧ Opens t source exit target arc F L := by
  unfold openArc at h
  obtain ⟨-, -, h⟩ := bind_eq_ok.mp h
  obtain ⟨caller, hcaller, h⟩ := bind_eq_ok.mp h
  obtain ⟨callee, hcallee, h⟩ := bind_eq_ok.mp h
  split at h
  rename_i id l hcall
  have hl : (t.ledger.call { source, exit, target }).2 = l := by rw [hcall]
  have hentries : l.entries = t.ledger.entries := by rw [← hl, entries_call]
  split at h
  · obtain ⟨t₁, henter, h⟩ := bind_eq_ok.mp h
    obtain ⟨F, L, rfl, hsize, hdecls, hledger, henters⟩ := enterFunction_eq henter
    cases h
    exact ⟨F, L, rfl, hsize, hdecls, hcaller, hcallee, by rw [hl]; exact hledger,
      Enters.trans (.of_same rfl hentries) henters⟩
  · cases h
    exact ⟨_, _, rfl, rfl, fun _ => rfl, hcaller, hcallee, by rw [hl]; exact ⟨rfl, rfl⟩, .of_same rfl hentries⟩

theorem pushFrame_eq {source target : AnchorId} {exit : Nat} {sp : Addr} {skip : Bool}
    (h : t.pushFrame source exit target sp skip = .ok t') :
    ∃ arc addr F L, t.returnAddressOf source exit = .ok addr ∧
      t' = { t with functions := F, ledger := L, stats := { t.stats with calls := t.stats.calls + 1 } }.setThread
        { t.thread with
          shadow := t.thread.shadow.push arc sp addr t.thread.exec.costed
          exec := { t.thread.exec with costed := if skip then t.thread.exec.costed.or (some source) else none } } ∧
      F.size = t.functions.size ∧ (∀ g, F.decl? g = t.functions.decl? g) ∧
      if skip then arc = none ∧ F = t.functions ∧ L = t.ledger
      else ∃ arc', arc = some arc' ∧ Opens t source exit target arc' F L := by
  unfold pushFrame at h
  cases skip with
  | true =>
    simp only [if_true, pure_eq_ok, ok_bind] at h
    obtain ⟨addr, haddr, h⟩ := bind_eq_ok.mp h
    cases h
    exact ⟨none, addr, _, _, haddr, rfl, rfl, fun _ => rfl, rfl, rfl, rfl⟩
  | false =>
    simp only [Bool.false_eq_true, if_false] at h
    obtain ⟨⟨arc, t₁⟩, harc, h⟩ := bind_eq_ok.mp h
    obtain ⟨F, L, rfl, hsize, hdecls, hopens⟩ := openArc_eq harc
    simp only [pure_eq_ok, ok_bind] at h
    obtain ⟨addr, haddr, h⟩ := bind_eq_ok.mp h
    cases h
    exact ⟨some arc, addr, F, L, haddr, rfl, hsize, hdecls, arc, rfl, hopens⟩

theorem link_eq {source : Option Departure} {x : Transfer} {a : AnchorId} {skip : Bool}
    (h : t.link source x a skip = .ok t') :
    (source = none ∧ t' = t) ∨ ∃ d A, source = some d ∧ t.anchors.setNext d.anchor a = .ok A ∧
      if x.enters then ∃ s n, callSource { t with anchors := A } d = .ok (s, n) ∧
        pushFrame { t with anchors := A } s n a x.sp skip = .ok t'
      else t' = { t with anchors := A } := by
  unfold link at h
  split at h
  · cases h
    exact .inl ⟨rfl, rfl⟩
  · rename_i d
    obtain ⟨A, hset, h⟩ := bind_eq_ok.mp h
    refine .inr ⟨d, A, rfl, hset, ?_⟩
    split at h
    · rename_i hx
      rw [if_pos hx]
      obtain ⟨⟨s, n⟩, hsource, h⟩ := bind_eq_ok.mp h
      exact ⟨s, n, hsource, h⟩
    · rename_i hx
      rw [if_neg hx]
      cases h
      rfl

end CallGraph.Tracker
