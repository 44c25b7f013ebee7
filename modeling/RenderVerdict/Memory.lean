/-! What 64 bits count, and what there is room for. -/
namespace RenderVerdict

/-- How many numbers 64 bits tell apart. A product of sizes wraps around here. -/
def wordCount : Nat := Nat.pow 2 64

def maxArrayBytes : Nat := Nat.pow 2 63 - 1

/-- The bytes that addresses of 57 bits tell apart. There is no memory with more. -/
def addressableBytes : Nat := Nat.pow 2 57

end RenderVerdict
