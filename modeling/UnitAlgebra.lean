import UnitAlgebra.Dimension.Canonical
import UnitAlgebra.Service
import UnitAlgebra.Stored
import UnitAlgebra.Typography
import UnitAlgebra.UnitTable
import UnitAlgebra.Proofs.Outcome
import UnitAlgebra.Proofs.Valuation
import UnitAlgebra.Proofs.Expansion
import UnitAlgebra.Proofs.Building
import UnitAlgebra.Proofs.Reduction
import UnitAlgebra.Proofs.Exact
import UnitAlgebra.Proofs.Written
import UnitAlgebra.Proofs.Exponents
import UnitAlgebra.Proofs.Merging
import UnitAlgebra.Proofs.Totals
import UnitAlgebra.Proofs.Expressions
import UnitAlgebra.Proofs.ByteOrder
import UnitAlgebra.Proofs.Obtained
import UnitAlgebra.Proofs.DottedRows
import UnitAlgebra.Proofs.FractionRows
import UnitAlgebra.Proofs.Composition
import UnitAlgebra.Proofs.Registered
import UnitAlgebra.Proofs.Remembering
import UnitAlgebra.Proofs.Recognition
import UnitAlgebra.Proofs.Registration
import UnitAlgebra.Proofs.Grammars
import UnitAlgebra.Proofs.Extension
import UnitAlgebra.Proofs.Doubles
import UnitAlgebra.Proofs.Tallies
import UnitAlgebra.Proofs.Products
import UnitAlgebra.Proofs.Copies
import UnitAlgebra.Proofs.TokenPattern
import UnitAlgebra.Proofs.Readings
import UnitAlgebra.Proofs.PrefixPowers
import UnitAlgebra.Proofs.Spacing
import UnitAlgebra.Proofs.SingleWords
import UnitAlgebra.Proofs.Printing
import UnitAlgebra.Proofs.Unfolding
import UnitAlgebra.Proofs.Numerals
import UnitAlgebra.Proofs.Typesetting
import UnitAlgebra.Proofs.Rounding
import UnitAlgebra.Proofs.Comparing
import UnitAlgebra.Proofs.LeadingPlaces
import UnitAlgebra.Proofs.Mantissas
import UnitAlgebra.Proofs.Overflow
import UnitAlgebra.Proofs.Coefficients
import UnitAlgebra.Proofs.FiniteFactors
