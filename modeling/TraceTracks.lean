import TraceTracks.Backend.Audited
import TraceTracks.Backend.Scripted
import TraceTracks.Catalog.Command
import TraceTracks.Json.Writer
import TraceTracks.Proofs.Authorship
import TraceTracks.Proofs.Availability
import TraceTracks.Proofs.Configuration
import TraceTracks.Proofs.Conflicts
import TraceTracks.Proofs.Contention
import TraceTracks.Proofs.Forest
import TraceTracks.Proofs.Guards
import TraceTracks.Proofs.Naming
import TraceTracks.Proofs.Nesting
import TraceTracks.Proofs.Occupancy
import TraceTracks.Proofs.OrderIndependence
import TraceTracks.Proofs.Permanence
import TraceTracks.Proofs.Recovery
import TraceTracks.Proofs.Roster
import TraceTracks.Session
import TraceTracks.Settings.Document
import TraceTracks.Track.Document
