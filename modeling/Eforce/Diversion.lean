-- What a patch does to the cpu that runs into it, on every architecture: the
-- cpu gets to the throw helper with the exception pointer for an argument, and
-- with the rest of its state as the caller left it.
import Eforce.CodeRun
import Eforce.Arch
import Eforce.ThrowCodeX64
import Eforce.ThrowCodeAarch64
import Eforce.ThrowCodeThumb

namespace eforce

open byte_memory isa

variable {w : Nat}

/-! ## Diversions -/

/-- The cpu stands at the entry of a function, with the argument `p` and the
frame of `c`. -/
structure Arrives {S : Isa w} (C : Convention S) (entry p : Addr w) (c c' : S.Cpu) : Prop where
  entry : S.pc c' = entry
  argument : C.argument c' = p
  frame : C.SameFrame c c'

/-- The code of a generator brings the cpu from the start of the function to
the throw helper, as long as the helper is in reach. On its way the cpu stays in
the code. -/
def IOpcodeGenerator.Diverts (g : IOpcodeGenerator w) (S : Isa w) (C : Convention S)
    (entry : Addr w → Addr w) (Reaches : Addr w → Addr w → Prop) : Prop :=
  ∀ fnStart throwFn p code, g.getThrowOpcode fnStart throwFn p = .ok code →
    Reaches fnStart throwFn → ∀ (m : Memory w) (c : S.Cpu), CodeAt m fnStart code →
    S.pc c = fnStart → ∃ k c', S.Path m (fun d => Within fnStart g.size (S.pc d)) c' (k + 1) c ∧
      Arrives C (entry throwFn) p c c'

/-- What the code does on the cpu of its few instructions, it does on the whole
cpu. -/
theorem IOpcodeGenerator.Diverts.extend {g : IOpcodeGenerator w} {S T : Isa w} {C : Convention T}
    {entry : Addr w → Addr w} {Reaches : Addr w → Addr w → Prop}
    (h : g.Diverts T C entry Reaches) (X : Extension S T) :
    g.Diverts S (C.extend X) entry Reaches := by
  intro fnStart throwFn p code hok hreach m c hcode hpc
  obtain ⟨k, t', hpath, harrives⟩ := h fnStart throwFn p code hok hreach m (X.view c) hcode
    ((X.pc_view c).trans hpc)
  obtain ⟨c', hpath', hview, hrest⟩ := X.path hpath rfl
  subst hview
  exact ⟨k, c', hpath', (X.pc_view c').symm.trans harrives.entry, harrives.argument,
    harrives.frame, hrest.symm⟩

/-! ## x86-64 -/

namespace opcode_generator_x64

/-- The first argument is in `rdi`. -/
def convention : Convention x64.arch where
  argument c := c.regs x64.rdi
  SameFrame c c' := (∀ r ≠ x64.rdi, c'.regs r = c.regs r) ∧ c'.rflags = c.rflags

/-- The upper end of a jump. The generator sees to the lower one. -/
def Reaches (fnStart throwFn : Addr 64) : Prop :=
  fnStart.toNat + 15 < 2 ^ 64 ∧ displacement fnStart throwFn ≤ 2 ^ 31 - 1

theorem straight_throwCode (pError : Addr 64) (rel : BitVec 32) (c : x64.Cpu) :
    ∃ d, x64.arch.Straight d (throwCode pError rel) 2 c :=
  ⟨_, .cons (encodes_movabs pError) rfl (.last (encodes_jmp rel) rfl)⟩

theorem diverts : OpcodeGeneratorX64.Diverts x64.arch convention id Reaches := by
  intro fnStart throwFn p code hok hreach m c hcode hpc
  obtain ⟨hfn, hhigh⟩ := hreach
  have hnear : ¬ difference throwFn (fnStart + 15) > kMaxOffset := fun hfar => by
    obtain ⟨e, he⟩ := getThrowOpcode_error_iff.2 hfar
    cases hok.symm.trans he
  have hlow : -2 ^ 31 ≤ displacement fnStart throwFn := by
    rw [too_far_iff hfn, not_lt, abs_le] at hnear
    exact hnear.1
  have hthrow := (getThrowOpcode_eq fnStart throwFn p).trans (if_neg hnear)
  have hthere : fnStart + 15 + (throwFn - (fnStart + 15)) = throwFn := by ring
  cases hok.symm.trans hthrow
  subst hpc
  obtain ⟨d, hstraight⟩ := straight_throwCode p _ c
  have hpath := hstraight.path hcode (by simp [throwCode])
  have hrun := hpath.run.symm.trans (run_throwCode hcode rfl)
  rw [jump_reaches hlow hhigh, hthere] at hrun
  cases hrun
  have hargument : Function.update c.regs x64.rdi p x64.rdi = p := Function.update_self _ _ _
  refine ⟨1, _, hpath, rfl, hargument, fun r hr => ?_, rfl⟩
  exact Function.update_of_ne hr _ _

end opcode_generator_x64

/-! ## AArch64 -/

namespace opcode_generator_aarch64

/-- The first argument is in `x0`. -/
def convention : Convention a64.arch where
  argument c := c.x 0
  SameFrame c c' := (∀ r ≠ 0, c'.x r = c.x r) ∧ c'.sp = c.sp ∧ c'.nzcv = c.nzcv

/-- The upper end of a branch. The generator sees to the lower one. -/
def Reaches (fnStart throwFn : Addr 64) : Prop :=
  fnStart.toNat % 4 = 0 ∧ throwFn.toNat % 4 = 0 ∧ (displacement fnStart throwFn).toInt < 2 ^ 27

theorem straight_code {fnStart throwFn error : Addr 64} {code : List Byte}
    (hok : getThrowOpcode fnStart throwFn error = .ok code) (c : a64.Cpu) :
    ∃ d, a64.arch.Straight d code 5 c := by
  obtain ⟨branch, hbranch, rfl⟩ := getThrowOpcode_ok_iff.1 hok
  unfold moveCode
  simp only [List.append_assoc]
  exact ⟨_, .cons (encodes_movz error) rfl (.cons (encodes_movk16 error) rfl
    (.cons (encodes_movk32 error) rfl (.cons (encodes_movk48 error) rfl
      (.last (encodes_branch hbranch) rfl))))⟩

theorem diverts : OpcodeGeneratorAarch64.Diverts a64.arch convention id Reaches := by
  intro fnStart throwFn p code hok hreach m c hcode hpc
  obtain ⟨hfn, hthrow, hhigh⟩ := hreach
  have hlen : code.length = 20 := OpcodeGeneratorAarch64.length_eq hok
  have hrun' := run_code hfn hthrow hok hhigh hcode hpc
  subst hpc
  obtain ⟨d, hstraight⟩ := straight_code hok c
  have hpath := hstraight.path hcode (by omega)
  rw [hlen] at hpath
  cases hpath.run.symm.trans hrun'
  have hargument : Function.update c.x 0 p 0 = p := Function.update_self _ _ _
  refine ⟨4, _, hpath, rfl, hargument, fun r hr => ?_, rfl, rfl⟩
  exact Function.update_of_ne hr _ _

end opcode_generator_aarch64

/-! ## Thumb-2 -/

namespace opcode_generator_thumb

/-- The first argument is in `r0`. -/
def convention : Convention thumb2.arch where
  argument c := c.r 0
  SameFrame c c' := (∀ r ≠ 0, c'.r r = c.r r) ∧ c'.apsr = c.apsr

/-- The range of a branch. The generator sees to none of it. -/
def Reaches (fnStart throwFn : Addr 32) : Prop :=
  fnStart.toNat % 2 = 0 ∧ -2 ^ 24 ≤ (displacement fnStart throwFn).toInt ∧
    (displacement fnStart throwFn).toInt ≤ 2 ^ 24 - 2

theorem straight_code {fnStart throwFn pError : Addr 32} {code : List Byte}
    (hok : getThrowOpcode fnStart throwFn pError = .ok code) (c : thumb2.Cpu) :
    ∃ d, thumb2.arch.Straight d code 3 c := by
  unfold getThrowOpcode at hok
  simp only [List.append_assoc] at hok
  cases hok
  exact ⟨_, .cons (encodes_movw _) rfl (.cons (encodes_movt _) rfl
    (.last (encodes_branch _) rfl))⟩

theorem diverts :
    OpcodeGeneratorThumb.Diverts thumb2.arch convention thumb2.codeAddress Reaches := by
  intro fnStart throwFn p code hok hreach m c hcode hpc
  obtain ⟨hfn, hlow, hhigh⟩ := hreach
  have hlen : code.length = 12 := OpcodeGeneratorThumb.length_eq hok
  obtain ⟨code', low, high, hok', -, hall⟩ := getThrowOpcode_spec throwFn p hfn
  cases hok.symm.trans hok'
  rw [(branchTarget_eq_iff throwFn hfn).2 ⟨hlow, hhigh⟩] at hall
  have hend := hall m c hcode hpc
  subst hpc
  obtain ⟨d, hstraight⟩ := straight_code hok c
  have hpath := hstraight.path hcode (by omega)
  rw [hlen] at hpath
  cases hpath.run.symm.trans hend
  have hargument : Function.update c.r 0 p 0 = p := Function.update_self _ _ _
  refine ⟨2, _, hpath, rfl, hargument, fun r hr => ?_, rfl⟩
  exact Function.update_of_ne hr _ _

end opcode_generator_thumb

/-! ## All of them -/

namespace Arch

/-- An instruction set with no instructions. -/
def noCode (w : Nat) : Isa w where
  Insn := Empty
  Cpu := Addr w
  pc := id
  decode _ := none
  decode_append h := by cases h
  window := 0
  exec _ _ c := c

/-- The instructions that the generator of an architecture uses. -/
def isa : (arch : Arch) → Isa arch.width
  | .amd64 => x64.arch
  | .armThumb2 => thumb2.arch
  | .aarch64 => a64.arch
  | .fallback => noCode 64

def convention : (arch : Arch) → Convention arch.isa
  | .amd64 => opcode_generator_x64.convention
  | .armThumb2 => opcode_generator_thumb.convention
  | .aarch64 => opcode_generator_aarch64.convention
  | .fallback => ⟨id, Eq⟩

/-- Where the code of a function pointer stands. -/
def entry : (arch : Arch) → Addr arch.width → Addr arch.width
  | .armThumb2 => thumb2.codeAddress
  | _ => id

/-- The helper is in reach of the code at the start of a function. -/
def Reaches : (arch : Arch) → Addr arch.width → Addr arch.width → Prop
  | .amd64 => opcode_generator_x64.Reaches
  | .armThumb2 => opcode_generator_thumb.Reaches
  | .aarch64 => opcode_generator_aarch64.Reaches
  | .fallback => fun _ _ => False

end Arch

/-- On every architecture, the code that the generator gives brings the cpu to
the throw helper with the exception pointer for an argument and the frame of
the caller, as long as the helper is in reach. -/
theorem the_code_of_every_generator_diverts (arch : Arch) :
    (getOpcodeGenerator arch).Diverts arch.isa arch.convention arch.entry arch.Reaches := by
  cases arch with
  | amd64 => exact opcode_generator_x64.diverts
  | armThumb2 => exact opcode_generator_thumb.diverts
  | aarch64 => exact opcode_generator_aarch64.diverts
  | fallback => exact fun _ _ _ _ _ hreach => hreach.elim

end eforce
