import JarTailor.Failure

/-!
# Traced computations and the log

A `Traced` computation yields a result or a failure, and the list of what it announced on the
way, in order and also when it fails. Announcing never influences the result: `result` is a
morphism of monads, which `result_bind` and `result_pure` say, so a statement about results can
forget the log.
-/

namespace JarTailor

structure Traced (ε α : Type) where
  result : Except Failure α
  trace : List ε
deriving Repr, Inhabited

namespace Traced

variable {ε α β : Type}

@[ext] theorem ext {x y : Traced ε α} (hr : x.result = y.result) (ht : x.trace = y.trace) :
    x = y := by
  cases x; cases y; simp_all

protected def bind (x : Traced ε α) (f : α → Traced ε β) : Traced ε β :=
  match x.result with
  | .ok a => let y := f a; ⟨y.result, x.trace ++ y.trace⟩
  | .error failure => ⟨.error failure, x.trace⟩

instance : Monad (Traced ε) where
  pure a := ⟨.ok a, []⟩
  bind := Traced.bind

instance : MonadExceptOf Failure (Traced ε) where
  throw failure := ⟨.error failure, []⟩
  tryCatch x handle :=
    match x.result with
    | .ok _ => x
    | .error failure => let y := handle failure; ⟨y.result, x.trace ++ y.trace⟩

instance : MonadLift (Except Failure) (Traced ε) where
  monadLift x := ⟨x, []⟩

@[simp] theorem result_pure (a : α) : (pure a : Traced ε α).result = .ok a := rfl

@[simp] theorem trace_pure (a : α) : (pure a : Traced ε α).trace = [] := rfl

@[simp] theorem result_throw (failure : Failure) :
    (throw failure : Traced ε α).result = .error failure := rfl

@[simp] theorem trace_throw (failure : Failure) : (throw failure : Traced ε α).trace = [] := rfl

@[simp] theorem result_monadLift (x : Except Failure α) :
    (monadLift x : Traced ε α).result = x := rfl

@[simp] theorem trace_monadLift (x : Except Failure α) :
    (monadLift x : Traced ε α).trace = [] := rfl

@[simp] theorem result_bind (x : Traced ε α) (f : α → Traced ε β) :
    (x >>= f).result = x.result >>= fun a => (f a).result := by
  show (Traced.bind x f).result = _
  unfold Traced.bind
  cases x.result <;> rfl

theorem trace_bind_ok {x : Traced ε α} {a : α} (h : x.result = .ok a) (f : α → Traced ε β) :
    (x >>= f).trace = x.trace ++ (f a).trace := by
  show (Traced.bind x f).trace = _
  simp [Traced.bind, h]

theorem trace_bind_error {x : Traced ε α} {failure : Failure} (h : x.result = .error failure)
    (f : α → Traced ε β) : (x >>= f).trace = x.trace := by
  show (Traced.bind x f).trace = _
  simp [Traced.bind, h]

theorem id_map_eq (x : Traced ε α) : id <$> x = x := by
  show Traced.bind x (fun a => pure (id a)) = x
  rcases x with ⟨_ | a, trace⟩ <;> simp [Traced.bind, pure]

theorem pure_bind_eq (a : α) (f : α → Traced ε β) : pure a >>= f = f a := by
  show Traced.bind _ _ = _
  simp [Traced.bind, pure]

theorem bind_assoc_eq {γ : Type} (x : Traced ε α) (f : α → Traced ε β) (g : β → Traced ε γ) :
    x >>= f >>= g = x >>= fun a => f a >>= g := by
  show Traced.bind (Traced.bind x f) g = Traced.bind x fun a => Traced.bind (f a) g
  rcases x with ⟨_ | a, trace⟩
  · rfl
  · simp only [Traced.bind]
    cases (f a).result <;> simp [List.append_assoc]

instance : LawfulMonad (Traced ε) :=
  LawfulMonad.mk' (Traced ε) id_map_eq pure_bind_eq bind_assoc_eq

def emit (event : ε) : Traced ε Unit := ⟨.ok (), [event]⟩

@[simp] theorem result_emit (event : ε) : (emit event).result = .ok () := rfl

@[simp] theorem trace_emit (event : ε) : (emit event).trace = [event] := rfl

/-- Running a computation so that its failures say what was being done. -/
def within (context : Context) (x : Traced ε α) : Traced ε α :=
  ⟨x.result.mapError (·.within context), x.trace⟩

@[simp] theorem result_within (context : Context) (x : Traced ε α) :
    (x.within context).result = Except.within context x.result := rfl

@[simp] theorem trace_within (context : Context) (x : Traced ε α) :
    (x.within context).trace = x.trace := rfl

/-- The same computation with its events seen through `f`. -/
def mapTrace {δ : Type} (f : ε → δ) (x : Traced ε α) : Traced δ α :=
  ⟨x.result, x.trace.map f⟩

@[simp] theorem result_mapTrace {δ : Type} (f : ε → δ) (x : Traced ε α) :
    (x.mapTrace f).result = x.result := rfl

@[simp] theorem trace_mapTrace {δ : Type} (f : ε → δ) (x : Traced ε α) :
    (x.mapTrace f).trace = x.trace.map f := rfl

theorem result_foldlM (f : β → α → Traced ε β) (values : List α) (start : β) :
    (values.foldlM f start).result = values.foldlM (fun b a => (f b a).result) start := by
  induction values generalizing start with
  | nil => rfl
  | cons value values ih =>
      simp only [List.foldlM_cons, result_bind]
      congr 1
      funext b
      exact ih b

theorem result_mapM (f : α → Traced ε β) (values : List α) :
    (values.mapM f).result = values.mapM fun a => (f a).result := by
  induction values with
  | nil => rfl
  | cons value values ih =>
      simp only [List.mapM_cons, result_bind, ih, result_pure]
      rfl

end Traced

/-- Importance of a log line, the most urgent first. -/
inductive Level where
  | error
  | warn
  | info
  | debug
  | trace
deriving Repr, DecidableEq, Inhabited

namespace Level

def rank : Level → Nat
  | .error => 1
  | .warn => 2
  | .info => 3
  | .debug => 4
  | .trace => 5

def label : Level → String
  | .error => "ERROR"
  | .warn => "WARN"
  | .info => "INFO"
  | .debug => "DEBUG"
  | .trace => "TRACE"

end Level

/-- The activity a log line belongs to; log filters select by its `target`. -/
inductive Topic where
  | session
  | config
  | scan
  | analysis
  | generation
  | replacing
  | promoting
  | stubbing
  | archive
deriving Repr, DecidableEq, Inhabited

def Topic.target : Topic → String
  | .session => "layoutlib_create"
  | .config => "layoutlib_create::config"
  | .scan => "layoutlib_create::scan"
  | .analysis => "layoutlib_create::analyzer"
  | .generation => "layoutlib_create::generator"
  | .replacing => "layoutlib_create::replace"
  | .promoting => "layoutlib_create::promote"
  | .stubbing => "layoutlib_create::stub"
  | .archive => "layoutlib_create::jar"

structure LogLine where
  level : Level
  topic : Topic
  text : String
deriving Repr, DecidableEq, Inhabited

abbrev Logged := Traced LogLine

def log (level : Level) (topic : Topic) (text : String) : Logged Unit :=
  .emit ⟨level, topic, text⟩

@[simp] theorem result_log (level : Level) (topic : Topic) (text : String) :
    (log level topic text).result = .ok () := rfl

@[simp] theorem trace_log (level : Level) (topic : Topic) (text : String) :
    (log level topic text).trace = [⟨level, topic, text⟩] := rfl

end JarTailor
