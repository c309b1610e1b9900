import TwinScript.Value.Basic

/-!
# Frames and scopes

A heap holds the frames in which names are bound. Every frame but the root has a parent, which is
older than itself, and a name means what the nearest frame on the way to the root binds it to.
Frames are never removed, so a closure keeps the frames it was declared in.

* `binder?` finds the nearest frame that binds a name; reading (`get?`) and overwriting (`assign?`)
  both go through it.
-/

namespace TwinScript

/-- What the names bound in one frame stand for, in the order in which they were first bound. -/
abbrev Bindings := List (String × Val)

namespace Bindings

/-- What a name stands for. -/
def get? : Bindings → String → Option Val
  | [], _ => none
  | (bound, v) :: rest, name => if bound = name then some v else get? rest name

/-- Lets `name` stand for `v`. -/
def insert (name : String) (v : Val) : Bindings → Bindings
  | [] => [(name, v)]
  | (bound, w) :: rest =>
    if bound = name then (name, v) :: rest else (bound, w) :: insert name v rest

/-- A binding is seen under its own name, and hides nothing else. -/
theorem get?_insert (bs : Bindings) (name other : String) (v : Val) :
    (bs.insert name v).get? other = if other = name then some v else bs.get? other := by
  induction bs with
  | nil => simp only [insert, get?, eq_comm]
  | cons b rest ih =>
    obtain ⟨bound, w⟩ := b
    by_cases hb : bound = name
    · subst hb
      simp only [insert, if_pos, get?]
      split
      · next h => simp [h]
      · next h => rw [if_neg fun e => h e.symm]
    · simp only [insert, if_neg hb, get?, ih]
      split
      · next h => rw [if_neg fun e => hb (h.trans e)]
      · rfl

end Bindings

/-- A frame: its bindings, and the frame around it. -/
structure Frame where
  /-- The frame around it; the root has none. -/
  parent? : Option FrameId
  /-- What is bound in the frame itself. -/
  bindings : Bindings
  deriving Inhabited

/-- All frames that were ever made, and how many closures were. -/
structure Heap where
  /-- The frames, each at its number. -/
  frames : Array Frame
  /-- How many closures were made: the number of the next one. -/
  closures : Nat
  deriving Inhabited

namespace Heap

/-- The number of the root frame. -/
def root : FrameId := 0

/-- The heap before anything is bound: one frame, without a parent. -/
def initial : Heap := ⟨#[⟨none, []⟩], 0⟩

/-- What `name` stands for in the frame `f` itself. -/
def here? (h : Heap) (f : FrameId) (name : String) : Option Val :=
  (h.frames[f]?).bind (·.bindings.get? name)

/-- The nearest frame that binds `name`, from `f` on and among the next `hops` frames. -/
def binderWithin? (h : Heap) (name : String) : Nat → FrameId → Option FrameId
  | 0, _ => none
  | hops + 1, f =>
    match h.frames[f]? with
    | none => none
    | some frame =>
      if (frame.bindings.get? name).isSome then some f
      else
        match frame.parent? with
        | none => none
        | some parent => binderWithin? h name hops parent

/-- The nearest frame that binds `name`, from `f` on. Parents are older than their children, so
there are no more than `f + 1` frames to look at. -/
def binder? (h : Heap) (f : FrameId) (name : String) : Option FrameId :=
  h.binderWithin? name (f + 1) f

/-- What `name` stands for, seen from the frame `f`. -/
def get? (h : Heap) (f : FrameId) (name : String) : Option Val :=
  (h.binder? f name).bind (h.here? · name)

/-- Makes a new frame with the parent `f` and the given bindings. -/
def child (h : Heap) (f : FrameId) (bindings : Bindings) : FrameId × Heap :=
  (h.frames.size, { h with frames := h.frames.push ⟨some f, bindings⟩ })

/-- Lets `name` stand for `v` in the frame `f` itself. -/
def define (h : Heap) (f : FrameId) (name : String) (v : Val) : Heap :=
  { h with
    frames := h.frames.modify f fun frame =>
      { frame with bindings := frame.bindings.insert name v } }

/-- Lets `name` stand for `v` where it is bound already; `none` if it is nowhere. -/
@[inline] def assign? (h : Heap) (f : FrameId) (name : String) (v : Val) : Option Heap :=
  (h.binder? f name).map (h.define · name v)

/-- Lets `name` stand for `v` where it is bound already, or else in the frame `f`. -/
def bind (h : Heap) (f : FrameId) (name : String) (v : Val) : Heap :=
  match h.assign? f name v with
  | some assigned => assigned
  | none => h.define f name v

/-- Declares a function in the frame `f`, under a number that no closure has yet. -/
def declare (h : Heap) (f : FrameId) (name : String) (params : List String) (body : List Stmt) :
    Heap :=
  let closure : Closure := ⟨h.closures, name, params, body, f⟩
  { h with closures := h.closures + 1 }.define f name (.closure closure)

/-! ### What each operation does to the frames -/

@[simp] theorem size_child (h : Heap) (f : FrameId) (bs : Bindings) :
    (h.child f bs).2.frames.size = h.frames.size + 1 := by
  simp [child]

@[simp] theorem size_define (h : Heap) (f : FrameId) (name : String) (v : Val) :
    (h.define f name v).frames.size = h.frames.size := by
  simp [define]

/-- A new frame has the bindings that it was made with, and all others are as they were. -/
theorem here?_child (h : Heap) (f g : FrameId) (bs : Bindings) (name : String) :
    (h.child f bs).2.here? g name =
      if g = h.frames.size then bs.get? name else h.here? g name := by
  by_cases hg : g = h.frames.size
  · simp [here?, child, hg]
  · simp [here?, child, hg, Array.getElem?_push]

/-- Defining a name changes what that name stands for in that frame, and nothing else. -/
theorem here?_define (h : Heap) (f g : FrameId) (name other : String) (v : Val)
    (hf : f < h.frames.size) :
    (h.define f name v).here? g other =
      if g = f ∧ other = name then some v else h.here? g other := by
  by_cases hg : g = f
  · subst hg
    simp only [here?, define, Array.getElem?_modify, if_true, Option.bind_map, true_and]
    rw [Array.getElem?_eq_getElem hf]
    simp [Bindings.get?_insert]
  · have : ¬ f = g := fun e => hg e.symm
    simp [here?, define, Array.getElem?_modify, hg, this]

/-- To bind a name is to define it in the nearest frame that binds it, or else in `f`. -/
theorem bind_eq (h : Heap) (f : FrameId) (name : String) (v : Val) :
    h.bind f name v = h.define ((h.binder? f name).getD f) name v := by
  unfold bind assign?
  cases h.binder? f name <;> rfl

@[simp] theorem size_bind (h : Heap) (f : FrameId) (name : String) (v : Val) :
    (h.bind f name v).frames.size = h.frames.size := by
  rw [bind_eq, size_define]

end Heap

/-- The bindings of a call: each parameter stands for its argument, and of two parameters of one
name for the later one's. -/
def Bindings.ofArguments (params : List String) (args : List Val) : Bindings :=
  (params.zip args).foldl (fun bs (name, v) => bs.insert name v) []

end TwinScript
