/-
  CallGraph.Proofs.Hintless — the tracker without its hints.

  An anchor remembers which anchor followed it, and a block which of its anchors was used last. Both are
  hints for finding the anchor of a key, which may be out of date. `enterPlainly` runs a block without
  them: the directory is asked every time, and an anchor is made where it has none. As long as the tables
  are in order, every operation does to a tracker without hints what it does to the tracker
  (`step_unhinted`), so a plain run of the same operations answers the same and comes to the same state
  but for the hints (`run_unhinted`).
-/

import CallGraph.Proofs.Upkeep

namespace CallGraph

theorem map_bind {ε α β γ : Type} (x : Except ε α) (f : α → Except ε β) (g : β → γ) :
    (x >>= f).map g = x >>= fun a => (f a).map g := by
  cases x <;> rfl

theorem bind_map {ε α β γ : Type} (x : Except ε α) (g : α → β) (f : β → Except ε γ) :
    x.map g >>= f = x >>= fun a => f (g a) := by
  cases x <;> rfl

/-! ## Arenas -/

namespace Arena

variable {α : Type}

theorem empty_map (f : α → α) : (empty : Arena α).map f = empty := by
  simp only [Arena.map, empty, Array.map_empty]

theorem insert_map (a : Arena α) (f : α → α) (x : α) :
    (a.map f).insert (f x) = ((a.insert x).1, (a.insert x).2.map f) := by
  obtain ⟨slots, free, live, hfree⟩ := a
  cases free with
  | nil => simp only [Arena.insert, Arena.map, Array.size_map, Array.map_push, Option.map_some]
  | cons i free => simp only [Arena.insert, Arena.map, Array.map_set, Option.map_some]

theorem remove?_map (a : Arena α) (f : α → α) (i : Nat) :
    (a.map f).remove? i = (a.remove? i).map fun p => (f p.1, p.2.map f) := by
  unfold Arena.remove?
  by_cases hi : i < a.slots.size
  · cases hx : a.slots[i] with
    | none => simp [Arena.map, hi, hx]
    | some x => simp [Arena.map, hi, hx]
  · simp [Arena.map, hi]

theorem map_map (a : Arena α) (f g : α → α) : (a.map f).map g = a.map (g ∘ f) := by
  simp only [Arena.map, Array.map_map, ← Option.map_comp_map]

theorem map_modify (a : Arena α) (i : Nat) {f g h : α → α} (hfg : ∀ x, f (g x) = h (f x)) :
    (a.modify i g).map f = (a.map f).modify i h := by
  have hslots : ∀ o : Option α, (o.map g).map f = (o.map f).map h := by
    intro o
    cases o with
    | none => rfl
    | some x => exact congrArg some (hfg x)
  refine Arena.ext (Array.ext_getElem? fun j => ?_) rfl rfl
  simp only [Arena.map, Arena.modify, Array.getElem?_map, Array.getElem?_modify]
  split
  · simp only [Option.map_map, Function.comp_def, hslots]
  · rfl

/-- A change that the map does not show. -/
theorem map_modify_hidden (a : Arena α) (i : Nat) {f g : α → α} (hfg : ∀ x, f (g x) = f x) :
    (a.modify i g).map f = a.map f := by
  rw [map_modify a i (h := id) hfg]
  have hslots : (a.map f).slots.modify i (Option.map id) = (a.map f).slots := by
    refine Array.ext_getElem? fun j => ?_
    rw [Array.getElem?_modify]
    split <;> simp
  exact Arena.ext hslots rfl rfl

theorem toList_map (a : Arena α) (f : α → α) : (a.map f).toList = a.toList.map fun p => (p.1, f p.2) := by
  simp only [Arena.toList, Arena.map, Array.toList_map, List.zipIdx_map, List.filterMap_map, List.map_filterMap]
  refine congrArg (fun g => List.filterMap g _) (funext fun p => ?_)
  obtain ⟨o, i⟩ := p
  cases o <;> rfl

end Arena

/-! ## Tables without hints -/

namespace BlockTable

variable (t : BlockTable)

/-- No block remembers its last anchor. -/
def unhinted : BlockTable := ⟨t.arena.map fun r => { r with recent := none }⟩

/-- Notes a new anchor of a block and no hint. -/
def listAnchor (id : BlockId) (anchor : AnchorId) : BlockTable :=
  ⟨t.arena.modify id.num fun r => { r with anchors := r.anchors ++ [anchor] }⟩

theorem get?_unhinted (id : BlockId) : t.unhinted.get? id = (t.get? id).map fun r => { r with recent := none } :=
  Arena.get?_map ..

theorem insert_unhinted (b : Block) : t.unhinted.insert b = ((t.insert b).1, (t.insert b).2.unhinted) := by
  have h := Arena.insert_map t.arena (fun r => { r with recent := none }) { block := b }
  simp only [insert, unhinted, h]

theorem remove?_unhinted (id : BlockId) :
    t.unhinted.remove? id = (t.remove? id).map fun p => ({ p.1 with recent := none }, p.2.unhinted) := by
  simp only [remove?, unhinted, Arena.remove?_map, Option.map_map]
  rfl

theorem setRecent_unhinted (id : BlockId) (a : AnchorId) : (t.setRecent id a).unhinted = t.unhinted :=
  congrArg BlockTable.mk (Arena.map_modify_hidden t.arena id.num fun _ => rfl)

theorem addAnchor_unhinted (id : BlockId) (a : AnchorId) : (t.addAnchor id a).unhinted = t.unhinted.listAnchor id a :=
  congrArg BlockTable.mk (Arena.map_modify t.arena id.num fun _ => rfl)

end BlockTable

namespace Directory

variable (d : Directory)

/-- No anchor remembers its follower. -/
def unhinted : Directory := { d with arena := d.arena.map fun a => { a with next := none } }

theorem get?_unhinted (id : AnchorId) : d.unhinted.get? id = (d.get? id).map fun a => { a with next := none } :=
  Arena.get?_map ..

theorem isFor_unhinted (key : AnchorKey) (id : AnchorId) : d.unhinted.isFor key id = d.isFor key id := by
  unfold isFor unhinted Arena.map
  rw [Array.getElem?_map]
  rcases d.arena.slots[id.num]? with _ | _ | a <;> rfl

theorem find_unhinted (key : AnchorKey) : d.unhinted.find key = d.find key := by
  have hfor : d.unhinted.isFor key = d.isFor key := funext (d.isFor_unhinted key)
  rw [find, find, hfor]
  rfl

theorem grow_unhinted : d.unhinted.grow = d.grow.unhinted := by
  have hlist : d.unhinted.toList = d.toList.map fun p => (p.1, { p.2 with next := none }) := by
    simp only [toList, unhinted, Arena.toList_map, List.map_map]
    rfl
  simp only [grow, hlist, List.foldl_map]
  rfl

theorem spawn_unhinted (key : AnchorKey) :
    d.unhinted.spawn key = (d.spawn key).map fun p => (p.1, p.2.unhinted) := by
  have hgrown : ∀ d : Directory,
      (if 100 * d.unhinted.arena.live / d.unhinted.buckets.size > 90 then d.unhinted.grow else d.unhinted) =
        unhinted (if 100 * d.arena.live / d.buckets.size > 90 then d.grow else d) := by
    intro d
    rw [grow_unhinted]
    show (if 100 * d.arena.live / d.buckets.size > 90 then d.grow.unhinted else d.unhinted) = _
    split <;> rfl
  have h := Arena.insert_map d.arena (fun a => { a with next := none }) { key }
  unfold spawn
  rw [find_unhinted]
  rcases d.find key with e | _ | b
  · rfl
  · rw [show d.unhinted = ⟨d.arena.map fun a => { a with next := none }, d.buckets, d.resizes⟩ from rfl]
    simp only [h, ok_bind]
    exact congrArg (fun d => Except.ok (_, d)) (hgrown ⟨_, _, _⟩)
  · rfl

theorem remove?_unhinted (id : AnchorId) :
    d.unhinted.remove? id = (d.remove? id).map fun p => ({ p.1 with next := none }, p.2.unhinted) := by
  simp only [remove?, unhinted, Arena.remove?_map, Option.map_map]
  rfl

theorem forgetHints_unhinted (evicted : AnchorId → Bool) :
    d.unhinted.forgetHints evicted = (d.forgetHints evicted).unhinted := by
  simp only [forgetHints, unhinted, Arena.map_map]
  rfl

theorem setNext_unhinted {d d' : Directory} {id next : AnchorId} (h : d.setNext id next = .ok d') :
    d'.unhinted = d.unhinted := by
  obtain ⟨y, -, h⟩ := bind_eq_ok.mp h
  cases h
  have harena := Arena.map_modify_hidden d.arena id.num (f := fun a => { a with next := none })
    (g := fun a => { a with next := some next }) fun _ => rfl
  simp only [unhinted, harena]

end Directory

/-- The counts, but for how anchors were found. -/
def Stats.unhinted (s : Stats) : Stats :=
  { s with lruHits := 0, blockHintHits := 0, directoryProbes := 0, anchorClones := 0 }

namespace Tracker

variable {t t' : Tracker}

/-- The tracker with no hint, and no count of hints. -/
def unhinted (t : Tracker) : Tracker :=
  { t with blocks := t.blocks.unhinted, anchors := t.anchors.unhinted, stats := t.stats.unhinted }

@[simp] theorem thread_unhinted (t : Tracker) : t.unhinted.thread = t.thread := rfl

@[simp] theorem functions_unhinted (t : Tracker) : t.unhinted.functions = t.functions := rfl

@[simp] theorem contexts_unhinted (t : Tracker) : t.unhinted.contexts = t.contexts := rfl

@[simp] theorem threads_unhinted (t : Tracker) : t.unhinted.threads = t.threads := rfl

/-! ## Leaving -/

/-- The operation neither reads nor writes a hint. -/
def Hintless (f : Tracker → Except Fault Tracker) : Prop := ∀ t, f t.unhinted = (f t).map unhinted

/-- Hintless steps one after the other, where the second may depend on the state after the first. -/
theorem Hintless.bind {f : Tracker → Except Fault Tracker} (hf : Hintless f) {g : Tracker → Except Fault Tracker}
    (hg : Hintless g) : Hintless fun t => f t >>= g := by
  intro t
  show f t.unhinted >>= g = _
  rw [hf, bind_map, map_bind]
  exact bind_congr hg

theorem leaveFunction_hintless (fn : FnId) : Hintless fun t => t.leaveFunction fn := by
  intro t
  simp only [leaveFunction, functions_unhinted]
  cases t.functions.leave fn <;> rfl

theorem enterFunction_hintless (fn : FnId) : Hintless fun t => t.enterFunction fn := by
  intro t
  simp only [enterFunction, functions_unhinted]
  cases t.functions.enter fn <;> rfl

theorem leaveContext_hintless (c : Option ContextId) : Hintless fun t => t.leaveContext c := by
  intro t
  cases c with
  | none => rfl
  | some c =>
    simp only [leaveContext, contexts_unhinted]
    cases t.contexts.get c with
    | error e => rfl
    | ok x => exact leaveFunction_hintless x.top t

theorem popFrame_hintless : Hintless popFrame := by
  intro t
  simp only [popFrame, thread_unhinted]
  cases t.thread.shadow.pop with
  | error e => rfl
  | ok p =>
    obtain ⟨f, shadow⟩ := p
    simp only [ok_bind]
    cases f.arc with
    | none => rfl
    | some arc =>
      cases f.context with
      | none => rfl
      | some c =>
        cases t.thread.fns.cutTo f.fnDepth with
        | error e => rfl
        | ok fns =>
          simp only [ok_bind]
          split
          · have hleave := (leaveFunction_hintless arc.callee).bind
              (g := fun t => pure { t with stats := { t.stats with returns := t.stats.returns + 1 } }) fun _ => rfl
            exact hleave (t.setThread
              { t.thread with shadow, fns, exec := { t.thread.exec with costed := f.costed, context := some c } })
          · rfl

theorem popFrames_hintless (n : Nat) : Hintless (popFrames n) := by
  induction n with
  | zero => exact fun _ => rfl
  | succ n ih => exact popFrame_hintless.bind ih

theorem leaveHandler_hintless : Hintless leaveHandler := by
  intro t
  simp only [leaveHandler, thread_unhinted]
  cases t.thread.handlers with
  | nil => rfl
  | cons hd handlers =>
    simp only [popFrames_hintless _ t, bind_map, map_bind]
    refine bind_congr fun t₁ => ?_
    simp only [leaveContext_hintless _ t₁, thread_unhinted, bind_map]
    refine bind_congr fun t₂ => ?_
    cases t₂.thread.fns.cutTo hd.fnDepth <;> rfl

theorem leaveHandlers_hintless (n : Nat) : Hintless (leaveHandlers n) := by
  induction n with
  | zero => exact fun _ => rfl
  | succ n ih => exact leaveHandler_hintless.bind ih

theorem popCall_hintless : Hintless popCall := fun t =>
  (leaveHandlers_hintless _).bind
    popFrame_hintless t

theorem popCalls_hintless (n : Nat) : Hintless (popCalls n) := by
  induction n with
  | zero => exact fun _ => rfl
  | succ n ih => exact popCall_hintless.bind ih

theorem finishThread_hintless (u : ThreadId) : Hintless fun t => t.finishThread u := by
  have hcut : Hintless (fun t => do
      let fns ← t.thread.fns.cutTo 0
      pure (t.setThread { t.thread with fns, exec := {} })) := by
    intro t
    simp only [thread_unhinted]
    cases t.thread.fns.cutTo 0 <;> rfl
  have hcontext : Hintless fun t => t.leaveContext t.thread.exec.context := fun t => leaveContext_hintless _ t
  have hframes : Hintless fun t => popFrames t.thread.shadow.depth t := fun t => popFrames_hintless _ t
  have hhandlers : Hintless fun t => leaveHandlers t.thread.handlers.length t := fun t => leaveHandlers_hintless _ t
  exact fun t => hhandlers.bind (hframes.bind (hcontext.bind hcut)) { t with threads := t.threads.switchTo u }

theorem finish_hintless : Hintless finish := by
  have hall : ∀ ids : List ThreadId, Hintless fun t => ids.foldlM finishThread t := by
    intro ids
    induction ids with
    | nil => exact fun _ => rfl
    | cons u ids ih =>
      have h := (finishThread_hintless u).bind ih
      exact fun t => h t
  exact fun t => hall t.threads.ids t

/-! ## Handlers and discards -/

theorem switchTo_unhinted (t : Tracker) (u : ThreadId) : t.unhinted.switchTo u = (t.switchTo u).unhinted := by
  unfold switchTo
  rw [threads_unhinted]
  split <;> rfl

theorem enterHandler_hintless (u : ThreadId) (signal : Int) : Hintless fun t => t.enterHandler u signal := by
  intro t
  simp only [enterHandler, switchTo_unhinted, thread_unhinted]
  split <;> rfl

theorem exitHandler_hintless (u : ThreadId) (signal : Int) : Hintless fun t => t.exitHandler u signal := by
  intro t
  simp only [exitHandler, switchTo_unhinted, thread_unhinted]
  split
  · rfl
  · exact leaveHandler_hintless (t.switchTo u)

theorem registerBlock_unhinted (t : Tracker) (b : Block) :
    t.unhinted.registerBlock b = (t.registerBlock b).map fun p => (p.1, p.2.unhinted) := by
  have hinsert : t.unhinted.blocks.insert b = _ := t.blocks.insert_unhinted b
  simp only [registerBlock, functions_unhinted, hinsert]
  split <;> rfl

theorem dropAnchor_unhinted (t : Tracker) (a : AnchorId) : t.unhinted.dropAnchor a = (t.dropAnchor a).unhinted := by
  have hremove : t.unhinted.anchors.remove? a = _ := t.anchors.remove?_unhinted a
  unfold dropAnchor
  rw [hremove]
  cases t.anchors.remove? a <;> rfl

theorem discardBlock_unhinted (t : Tracker) (id : BlockId) :
    t.unhinted.discardBlock id = ((t.discardBlock id).1, (t.discardBlock id).2.unhinted) := by
  have hdrop : ∀ (ids : List AnchorId) (t : Tracker),
      ids.foldl dropAnchor t.unhinted = (ids.foldl dropAnchor t).unhinted := by
    intro ids
    induction ids with
    | nil => exact fun _ => rfl
    | cons a ids ih =>
      intro t
      rw [List.foldl_cons, List.foldl_cons, dropAnchor_unhinted, ih]
  have hremove : t.unhinted.blocks.remove? id = _ := t.blocks.remove?_unhinted id
  unfold discardBlock
  rw [hremove]
  cases t.blocks.remove? id with
  | none => rfl
  | some p =>
    obtain ⟨r, blocks⟩ := p
    have hfold := hdrop r.anchors { t with blocks }
    simp only [Option.map_some]
    rw [show ({ t.unhinted with blocks := blocks.unhinted } : Tracker) = unhinted { t with blocks } from rfl, hfold]
    generalize r.anchors.foldl dropAnchor { t with blocks } = t₁
    have hforget := t₁.anchors.forgetHints_unhinted fun a => r.anchors.contains a
    simp only [unhinted, hforget]
    rfl

/-! ## Running a block without hints -/

/-- The anchor of a key as the directory has it. An anchor is made if there is none. -/
def resolve (t : Tracker) (key : AnchorKey) : Except Fault (AnchorId × Tracker) := do
  match ← t.anchors.find key with
  | some id => pure (id, t)
  | none =>
    let (id, anchors) ← t.anchors.spawn key
    pure (id, { t with anchors, blocks := t.blocks.listAnchor key.block id })

/-- Pushes the frame of a call. What ran after the last anchor is not noted. -/
def linkPlainly (t : Tracker) (source : Option Departure) (x : Transfer) (target : AnchorId) (skip : Bool) :
    Except Fault Tracker :=
  match source with
  | none => pure t
  | some d =>
    if x.enters then do
      let (source, exit) ← t.callSource d
      t.pushFrame source exit target x.sp skip
    else pure t

/-- Runs a live block, where hints are neither read nor written. -/
def enterPlainly (t : Tracker) (pos : Position) (id : BlockId) : Except Fault (AnchorId × Tracker) := do
  let t := t.switchTo pos.thread
  let source ← t.departure
  let r ← t.blocks.get id
  let x := Transfer.classify t.config.tailCalls source r.block pos.sp t.thread.shadow.frames t.thread.bottom
  let t ← popCalls x.pops (t.countTransfer x)
  let (skip, t) ← t.prepare x r.block.fn
  match t.thread.exec.context with
  | none => throw (.noActiveContext id)
  | some context =>
    let (anchor, t) ← t.resolve { block := id, context, thread := pos.thread }
    let t ← t.linkPlainly source x anchor skip
    pure (anchor, t.settle anchor)

def stepPlainly (t : Tracker) : Op → Except Fault (Reply × Tracker)
  | .enterBlock pos block => do
    let (anchor, t) ← t.enterPlainly pos block
    pure (.billed anchor, t)
  | op => t.step op

/-- The block of an anchor is the same without hints. -/
theorem gets_unhinted {α : Type} (t : Tracker) (a : AnchorId) (f : Block → Except Fault α) :
    (do
      let y ← t.unhinted.anchors.get a
      let r ← t.unhinted.blocks.get y.key.block
      f r.block) = (do
      let y ← t.anchors.get a
      let r ← t.blocks.get y.key.block
      f r.block) := by
  have hanchor : t.unhinted.anchors.get? a = _ := t.anchors.get?_unhinted a
  simp only [Directory.get, hanchor]
  cases t.anchors.get? a with
  | none => rfl
  | some y =>
    have hblock : t.unhinted.blocks.get? y.key.block = _ := t.blocks.get?_unhinted y.key.block
    simp only [Option.map_some, pure_eq_ok, ok_bind, BlockTable.get, hblock]
    cases t.blocks.get? y.key.block <;> rfl

theorem departure_unhinted (t : Tracker) : t.unhinted.departure = t.departure := by
  simp only [departure, thread_unhinted]
  cases t.thread.exec.anchor with
  | none => rfl
  | some a =>
    exact gets_unhinted t a fun b => pure (some (Departure.mk a b (b.exitAfter t.thread.exec.exitsPassed).1
      (b.exitAfter t.thread.exec.exitsPassed).2.kind))

theorem callSource_unhinted (t : Tracker) (d : Departure) : t.unhinted.callSource d = t.callSource d := by
  simp only [callSource, thread_unhinted]
  cases t.thread.exec.costed with
  | none => rfl
  | some a => exact gets_unhinted t a fun b => pure (a, b.finalIndex)

theorem returnAddressOf_unhinted (t : Tracker) (a : AnchorId) (exit : Nat) :
    t.unhinted.returnAddressOf a exit = t.returnAddressOf a exit :=
  gets_unhinted t a fun b => do
    let addr ← b.returnAddress exit
    pure (addr.getD .unknown)

theorem functionOf_unhinted (t : Tracker) (a : AnchorId) : t.unhinted.functionOf a = t.functionOf a := by
  have hanchor : t.unhinted.anchors.get? a = _ := t.anchors.get?_unhinted a
  simp only [functionOf, Directory.get, hanchor]
  cases t.anchors.get? a <;> rfl

theorem openArc_unhinted (t : Tracker) (s : AnchorId) (n : Nat) (a : AnchorId) :
    t.unhinted.openArc s n a = (t.openArc s n a).map fun p => (p.1, p.2.unhinted) := by
  simp only [openArc, functionOf_unhinted]
  rw [show t.unhinted.checkCall s = t.checkCall s from rfl, map_bind]
  refine bind_congr fun _ => ?_
  rw [map_bind]
  refine bind_congr fun caller => ?_
  rw [map_bind]
  refine bind_congr fun callee => ?_
  split
  · have henter : enterFunction { t.unhinted with ledger := (t.unhinted.ledger.call ⟨s, n, a⟩).2 } callee =
        (enterFunction { t with ledger := (t.ledger.call ⟨s, n, a⟩).2 } callee).map unhinted :=
      enterFunction_hintless callee { t with ledger := (t.ledger.call ⟨s, n, a⟩).2 }
    rw [henter, bind_map, map_bind]
    rfl
  · rfl

theorem pushFrame_hintless (s : AnchorId) (n : Nat) (a : AnchorId) (sp : Addr) (skip : Bool) :
    Hintless fun t => t.pushFrame s n a sp skip := by
  intro t
  cases skip with
  | true =>
    simp only [pushFrame, if_true, pure_eq_ok, ok_bind, returnAddressOf_unhinted, map_bind]
    exact bind_congr fun _ => rfl
  | false =>
    simp only [pushFrame, Bool.false_eq_true, if_false, openArc_unhinted, bind_map, map_bind]
    refine bind_congr fun p => ?_
    simp only [pure_eq_ok, ok_bind, returnAddressOf_unhinted]
    exact bind_congr fun _ => rfl

theorem pushContext_hintless (fn : FnId) : Hintless fun t => t.pushContext fn := by
  intro t
  simp only [pushContext, thread_unhinted, map_bind]
  refine bind_congr fun shadow => ?_
  by_cases htop : t.thread.fns.top? = some fn
  · simp only [htop, if_true]
    rfl
  · have hrest : Hintless (fun t₁ => do
        let p ← t₁.contexts.intern t₁.functions (t.thread.fns.push (some fn)).chain
        pure ({ t₁ with contexts := p.2.1, functions := p.2.2 }.setThread { t.thread with
          shadow, fns := t.thread.fns.push (some fn), exec := { t.thread.exec with context := p.1 } })) := by
      intro t₁
      simp only [contexts_unhinted, functions_unhinted, map_bind]
      exact bind_congr fun _ => rfl
    simp only [htop, if_false]
    split
    · rename_i hbase
      exact (if_pos hbase).trans ((enterFunction_hintless fn).bind hrest t)
    · rename_i hbase
      exact (if_neg hbase).trans (hrest t)

theorem prepare_unhinted (t : Tracker) (x : Transfer) (fn : FnId) :
    t.unhinted.prepare x fn = (t.prepare x fn).map fun p => (p.1, p.2.unhinted) := by
  have hpushed : ∀ p skip : Bool,
      (if p = true then t.unhinted.pushContext fn >>= fun t' => pure (skip, t') else pure (skip, t.unhinted)) =
        Except.map (fun q : Bool × Tracker => (q.1, q.2.unhinted))
          (if p = true then t.pushContext fn >>= fun t' => pure (skip, t') else pure (skip, t)) := by
    intro p skip
    cases p with
    | false => rfl
    | true =>
      simp only [if_true, pushContext_hintless fn t, bind_map, map_bind]
      rfl
  unfold prepare
  simp only [functions_unhinted, thread_unhinted]
  cases x.enters with
  | false => exact hpushed _ false
  | true =>
    cases t.functions.get fn with
    | error e => rfl
    | ok f => exact hpushed _ f.skip

/-- Whatever hint was taken, the directory has the same anchor, or none if one was made. -/
theorem resolve_unhinted (filed : t.anchors.Filed) (hslots : t.anchors.arena.Sound) {key : AnchorKey}
    {last : Option AnchorId} {a : AnchorId} {r : Resident} (hr : t.blocks.get? key.block = some r)
    (h : t.billTo key last = .ok (a, t')) : t.unhinted.resolve key = .ok (a, t'.unhinted) := by
  obtain ⟨S, hfound, ⟨hholds, rfl⟩ | ⟨A, hspawn, rfl⟩⟩ := billTo_eq hr h
  · have hstats : S.unhinted = t.stats.unhinted := hfound.others
    have hfind := Directory.lookup_eq_some.mp (filed.lookup_eq_some_iff.mpr hholds)
    simp only [resolve, unhinted, Directory.find_unhinted, hfind, ok_bind, BlockTable.setRecent_unhinted, hstats,
      pure_eq_ok]
  · have hstats : S.unhinted = t.stats.unhinted := hfound.others
    obtain ⟨hnone, -⟩ := Directory.spawn_eq hslots hspawn
    simp only [resolve, unhinted, Directory.find_unhinted, hnone, Directory.spawn_unhinted, hspawn, Except.map,
      ok_bind, pure_eq_ok, BlockTable.addAnchor_unhinted, hstats]

theorem link_unhinted {source : Option Departure} {x : Transfer} {a : AnchorId} {skip : Bool}
    (h : t.link source x a skip = .ok t') : t.unhinted.linkPlainly source x a skip = .ok t'.unhinted := by
  obtain ⟨rfl, rfl⟩ | ⟨d, A, rfl, hset, h'⟩ := link_eq h
  · rfl
  · have hA : unhinted { t with anchors := A } = t.unhinted := by
      simp only [unhinted, Directory.setNext_unhinted hset]
    unfold linkPlainly
    split at h'
    · rename_i hx
      obtain ⟨s, n, hsource, hpush⟩ := h'
      rw [← callSource_unhinted, hA] at hsource
      have hpushed := pushFrame_hintless s n a x.sp skip { t with anchors := A }
      simp only [hA, hpush, Except.map] at hpushed
      simp only [hx, if_true, hsource, ok_bind, hpushed]
    · rename_i hx
      subst h'
      simp only [hx, hA]
      rfl

theorem enterBlock_unhinted (h : t.Inv) (o : t.InOrder) {pos : Position} {id : BlockId} {a : AnchorId}
    (he : t.enterBlock pos id = .ok (a, t')) : t.unhinted.enterPlainly pos id = .ok (a, t'.unhinted) := by
  obtain ⟨source, r, x, skip, c, t₁, t₂, t₃, t₄, st, rfl⟩ := enterBlock_stages he
  have h₀ := h.switchTo pos.thread
  have o₀ := o.switchTo h pos.thread
  obtain ⟨hanchors, hblocks⟩ := st.unbilled h₀
  -- Each stage does without hints what it does with them.
  have hresolved := resolve_unhinted (by rw [hanchors]; exact o₀.anchors)
    (by rw [hanchors]; exact h₀.tables.anchorSlots) (by rw [hblocks]; exact st.block) st.billed
  have hlinked := link_unhinted st.linked
  have hprepared := prepare_unhinted t₁ x r.block.fn
  have hpopped : popCalls x.pops ((t.switchTo pos.thread).unhinted.countTransfer x) = _ :=
    popCalls_hintless x.pops ((t.switchTo pos.thread).countTransfer x)
  simp only [st.prepared, Except.map] at hprepared
  simp only [st.pops, Except.map] at hpopped
  have hblock : (t.switchTo pos.thread).unhinted.blocks.get id = .ok { r with recent := none } := by
    refine BlockTable.get_eq_ok ?_
    show (t.switchTo pos.thread).blocks.unhinted.get? id = _
    rw [BlockTable.get?_unhinted, st.block]
    rfl
  have htransfer : Transfer.classify (t.switchTo pos.thread).unhinted.config.tailCalls source r.block pos.sp
      (t.switchTo pos.thread).unhinted.thread.shadow.frames (t.switchTo pos.thread).unhinted.thread.bottom = x :=
    st.transfer
  have hctx : t₂.unhinted.thread.exec.context = some c := st.context
  unfold enterPlainly
  simp only [switchTo_unhinted, departure_unhinted, st.departure, hblock, ok_bind, htransfer, hpopped, hprepared,
    hctx, hresolved, hlinked]
  rfl

theorem step_unhinted (h : t.Inv) (o : t.InOrder) {op : Op} {reply : Reply} (hs : t.step op = .ok (reply, t')) :
    t.unhinted.stepPlainly op = .ok (reply, t'.unhinted) := by
  cases step_effect hs with
  | registerFunction | setExitsPassed => rfl
  | setFunctionSkip hset =>
    simp only [stepPlainly, step, setFunctionSkip, functions_unhinted, hset, ok_bind, pure_eq_ok]
    rfl
  | registerBlock hknown =>
    simp only [stepPlainly, step, registerBlock_unhinted, registerBlock_of_known hknown, Except.map, ok_bind,
      pure_eq_ok]
  | enterBlock henter => simp only [stepPlainly, enterBlock_unhinted h o henter, ok_bind, pure_eq_ok]
  | @enterHandler u signal _ henter =>
    have hsame := enterHandler_hintless u signal t
    simp only [henter, Except.map] at hsame
    simp only [stepPlainly, step, hsame, ok_bind, pure_eq_ok]
  | @exitHandler u signal _ hexit =>
    have hsame := exitHandler_hintless u signal t
    simp only [hexit, Except.map] at hsame
    simp only [stepPlainly, step, hsame, ok_bind, pure_eq_ok]
  | discardBlock id => simp only [stepPlainly, step, discardBlock_unhinted t id, pure_eq_ok]
  | finish hfinish =>
    have hsame := finish_hintless t
    simp only [hfinish, Except.map] at hsame
    simp only [stepPlainly, step, hsame, ok_bind, pure_eq_ok]

/-! ## Whole runs -/

def runPlainly (t : Tracker) (ops : List Op) : Except Fault Tracker :=
  ops.foldlM (fun t op => do
    let (_, t) ← t.stepPlainly op
    pure t) t

theorem run_unhinted {config : Config} (h : Reach config t) {ops : List Op} (hrun : t.run ops = .ok t') :
    t.unhinted.runPlainly ops = .ok t'.unhinted := by
  induction ops generalizing t with
  | nil =>
    cases hrun
    rfl
  | cons op ops ih =>
    rw [run_cons] at hrun
    obtain ⟨⟨reply, t₁⟩, hs, hrest⟩ := bind_eq_ok.mp hrun
    have hplain := step_unhinted (reach_inv h).1 (reach_inOrder h) hs
    simp only [runPlainly, List.foldlM_cons, hplain, ok_bind, pure_eq_ok]
    exact ih (h.step hs) hrest

/-- A fresh tracker has no hints. -/
theorem ofConfig_unhinted {config : Config} (h : ofConfig config = .ok t) : t.unhinted = t := by
  obtain ⟨-, C, -, A, hA, rfl⟩ := ofConfig_eq_ok.mp h
  obtain ⟨-, rfl⟩ := Directory.ofBuckets_eq_ok.mp hA
  simp only [unhinted, BlockTable.unhinted, BlockTable.empty, Directory.unhinted, Arena.empty_map]
  rfl

/-- A run on the reference engine, which neither keeps nor follows hints. -/
def runPlainlyFrom (config : Config) (ops : List Op) : Except Fault Tracker := do
  let t ← ofConfig config
  t.runPlainly ops

theorem runFrom_unhinted {config : Config} {ops : List Op} (h : runFrom config ops = .ok t) :
    runPlainlyFrom config ops = .ok t.unhinted := by
  obtain ⟨t₀, h₀, hrun⟩ := runFrom_eq_ok h
  have hplain := run_unhinted (.init h₀) hrun
  rw [ofConfig_unhinted h₀] at hplain
  simp only [runPlainlyFrom, h₀, ok_bind, hplain]

end Tracker
end CallGraph
