import FunctionPairs.Log

/-!
Values seen without the records that came with them: a sequence of steps has the value of its
last step, taken at the value of the first.
-/
namespace FunctionPairs.Logged

variable {α β : Type}

@[simp] theorem value_pure (a : α) : (pure a : Logged α).value = a := rfl

@[simp] theorem value_bind (x : Logged α) (f : α → Logged β) :
    (x >>= f).value = (f x.value).value := rfl

end FunctionPairs.Logged
